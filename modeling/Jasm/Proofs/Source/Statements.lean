import Jasm.Proofs.Source.Simulation

/-!
# Statements that are followed

The code of statements moves behind them or returns, as their run does, and leaves every variable
where the next statements look for it. With the results on expressions and calls this closes the
induction on the fuel: whatever the source does, the code does.
-/

namespace Jasm.Source

open Assembly Compile Scopes TypedStmt List Option
open Machine (Runs)
open Program (Expr Stmt)

variable {k : Assembly.Class} {ml ml₁ ml' : Nat → Option Int32} {mg mg' : String → Option Int32}
  {s s₁ s' : Shared} {code code' start : List Instruction} {result : Option Int32} {n : Int32}
  {name : String} {mg₁ : String → Option Int32} {t : Typed} {o : Operand} {T : TypedStmt}

/-! ## Code that control moves through -/

theorem endsWith_locals {f : Frame} (h : f.EndsWith code) {ml : Nat → Option Int32} :
    Frame.EndsWith { f with locals := ml } code :=
  ⟨h.nodup, h.suffix⟩

theorem Turns.moves (h : Turns k ml code s s' [] []) : Moves k code code ml s ml s' := by
  intro f fs rest hl ends
  subst hl
  exact h f fs rest [] rfl ends

theorem Returns.append (h : Returns k code start ml s result s') (code' : List Instruction) :
    Returns k (code ++ code') (start ++ code') ml s result s' := by
  intro f fs rest hl gives callers ends
  rw [append_assoc] at ends ⊢
  exact h f fs _ hl gives callers ends

/-- Control comes from `start`, a part of `code`, to `start₁`, a part of the code within it, and
from the end of the inner code, where it comes there, to the end of the outer. -/
structure Enters (k : Assembly.Class) (code start : List Instruction) (ml : Nat → Option Int32)
    (s : Shared) (code₁ start₁ : List Instruction) (ml₁ : Nat → Option Int32) (s₁ : Shared) :
    Prop where
  comes : endsTerminal code₁ = false → endsTerminal code = false
  runs : ∀ (f : Frame) (fs : List Frame) (rest : List Instruction), f.locals = ml →
    f.EndsWith (code ++ rest) → ∃ rest₁, f.EndsWith (code₁ ++ rest₁) ∧
      Runs k ⟨f.set (start ++ rest) [] :: fs, s.1, s.2⟩
        ⟨Frame.set { f with locals := ml₁ } (start₁ ++ rest₁) [] :: fs, s₁.1, s₁.2⟩ ∧
      (endsTerminal code₁ = false → ∀ ml' (s' : Shared), Runs k
        ⟨Frame.set { f with locals := ml' } rest₁ [] :: fs, s'.1, s'.2⟩
        ⟨Frame.set { f with locals := ml' } rest [] :: fs, s'.1, s'.2⟩)

theorem Moves.enters (first : Moves k code start ml s ml₁ s₁) (comes : endsTerminal code = false)
    (code' : List Instruction) :
    Enters k (code ++ code') (start ++ code') ml s code' code' ml₁ s₁ where
  comes h := by
    rw [endsTerminal_append]
    split
    · exact comes
    · exact h
  runs f fs rest hl ends := by
    rw [append_assoc] at ends ⊢
    exact ⟨rest, ends.right, first f fs _ hl ends, fun _ _ _ => .refl⟩

theorem moves_storeLocal {name : String} {i : Nat} (value : Turns k ml code s s₁ [] [.int n]) :
    Moves k (code ++ [storeCode name (.frame (i : Nat))])
      (code ++ [storeCode name (.frame (i : Nat))]) ml s (Function.update ml i (some n)) s₁ := by
  intro f fs rest hl ends
  rw [append_assoc] at ends ⊢
  apply (value f fs _ [] hl ends).trans
  subst hl
  exact .one rfl

theorem moves_storeGlobal (value : Turns k ml code s s₁ [] [.int n])
    (present : (s₁.1 name).isSome) :
    Moves k (code ++ [storeCode name .global]) (code ++ [storeCode name .global]) ml s ml
      (Function.update s₁.1 name (some n), s₁.2) := by
  intro f fs rest hl ends
  rw [append_assoc] at ends ⊢
  apply (value f fs _ [] hl ends).trans
  subst hl
  apply Runs.one
  show (if (s₁.1 name).isSome then some _ else none) = _
  rw [if_pos present]
  rfl

theorem endsTerminal_append_one (code : List Instruction) {i : Instruction}
    (h : i.isTerminal = false) : endsTerminal (code ++ [i]) = false := by
  rw [endsTerminal_append, if_neg (by simp)]
  exact h

theorem isTerminal_storeCode (name : String) (l : Location) :
    (storeCode name l).isTerminal = false := by
  unfold storeCode
  split <;> rfl

variable {limit : Int} {stem : String} {p : Program} {G : Scope Symbol} {fuel : Nat}
  {Γ Γ' : Scopes} {env env' env₁ env₂ : Env} {f : Option Signature}

theorem Executed.within {code start code₁ start₁ : Nat → List Instruction} {outcome : Outcome}
    (h : Executed k G f code₁ start₁ Γ' env₁ ml₁ mg₁ outcome)
    (enters : ∀ n, ∃ m, Enters k (code n) (start n) ml (mg, seen env.output) (code₁ m) (start₁ m)
      ml₁ (mg₁, seen env₁.output)) : Executed k G f code start Γ' env ml mg outcome := by
  cases outcome with
  | done env' =>
    obtain ⟨ml', mg', agrees, moves⟩ := h
    refine ⟨ml', mg', agrees, fun n => ?_⟩
    obtain ⟨m, enters⟩ := enters n
    obtain ⟨comes, moves⟩ := moves m
    refine ⟨enters.comes comes, fun f fs rest hl ends => ?_⟩
    obtain ⟨rest₁, inside, entered, left⟩ := enters.runs f fs rest hl ends
    apply entered.trans
    exact (moves _ fs rest₁ rfl (endsWith_locals inside)).trans (left comes ml' _)
  | returned v env' =>
    obtain ⟨result, mg', gives, globals, returns⟩ := h
    refine ⟨result, mg', gives, globals, fun n f fs rest hl given callers ends => ?_⟩
    obtain ⟨m, enters⟩ := enters n
    obtain ⟨rest₁, inside, entered, -⟩ := enters.runs f fs rest hl ends
    exact entered.trans (returns m _ fs rest₁ rfl given callers (endsWith_locals inside))

/-! ## Stores and declarations -/

theorem executed_store {w v : Value} {id : String} {depth : Nat} {form : Form} {slot : Option Nat}
    (f : Option Signature) (evaluated : Evaluated stem k G ml mg env t w env₁ o mg₁)
    (proper : Proper G Γ) (agrees : Agrees G Γ env₂ ml mg₁) (output : env₂.output = env₁.output)
    (found : Γ.stack.find? name = some (depth, ⟨form, .variable id v, slot⟩))
    (kind : t.kind = v.kind) :
    let T := store t name (Γ.location depth ⟨form, .variable id v, slot⟩)
    ∃ env', env₂.assign name w = .ok env' ∧
      Executes stem k G f T Γ env ml mg (.done env') := by
  intro T
  have storable : isStorable v.kind := (proper.good.find? found).item
  have kind' : w.kind = v.kind := evaluated.kind.trans kind
  rw [← kind'] at storable
  obtain ⟨n, image, rfl⟩ := Value.exists_intImage? storable evaluated.operand
  obtain ⟨env', assigned, output', stored⟩ := agrees.assign proper found kind' image
  refine ⟨env', assigned, ?_⟩
  have same : seen env'.output = seen env₁.output := by rw [output', output]
  rcases stored with ⟨i, located, agrees'⟩ | ⟨located, present, agrees'⟩
  · refine ⟨_, _, agrees', fun n => ?_⟩
    simp only [T, lower, located, same]
    exact ⟨endsTerminal_append_one _ (isTerminal_storeCode ..),
      moves_storeLocal (evaluated.turns n)⟩
  · refine ⟨_, _, agrees', fun n => ?_⟩
    simp only [T, lower, located, same]
    exact ⟨endsTerminal_append_one _ (isTerminal_storeCode ..),
      moves_storeGlobal (evaluated.turns n) present⟩

theorem executed_skip (f : Option Signature) (agrees : Agrees G Γ' env' ml mg)
    (output : env'.output = env.output) :
    Executes stem k G f .skip Γ' env ml mg (.done env') := by
  refine ⟨ml, mg, agrees, fun n => ?_⟩
  simp only [lower, output]
  exact ⟨rfl, Turns.nil.moves⟩

theorem output_declare (env : Env) (name : String) (b : Binding) :
    (env.declare name b).output = env.output := by
  unfold Env.declare
  split <;> rfl

theorem assign_declare {kind : Kind} {w : Value} (inner : env.locals ≠ []) (hk : w.kind = kind) :
    (env.declare name (.variable (.uninit kind))).assign name w =
      .ok (env.declare name (.variable w)) := by
  obtain ⟨locals, globals, output⟩ := env
  cases locals with
  | nil => exact absurd rfl inner
  | cons l rest =>
    have assigned : (Value.uninit kind).assign w = .ok w := if_pos hk.symm
    simp [Env.declare, Env.assign, assign, Level.assign, assigned]

theorem Agrees.locals_ne (agrees : Agrees G Γ env ml mg) (proper : Proper G Γ)
    (inner : Γ.stack.inner ≠ []) : env.locals ≠ [] := by
  have lengths := agrees.locals.length_eq
  have bases := proper.bases
  intro none
  have := length_pos_of_ne_nil inner
  simp only [frames, length_zip, none, length_nil] at lengths
  omega

theorem Proper.declare? (proper : Proper G Γ) (inner : Γ.stack.inner ≠ []) {d : Program.Declaration}
    (h : Γ.declare? limit d = some (T, Γ')) : Proper G Γ' := by
  obtain ⟨x, slot, inserted, good, -⟩ := declare?_eq_some h
  exact proper.insert? inner good inserted

theorem Proper.stmt? (proper : Proper G Γ) (inner : Γ.stack.inner ≠ []) {st : Stmt}
    (h : Γ.stmt? limit f st = some (T, Γ')) : Proper G Γ' := by
  cases st with
  | declare _ d => exact proper.declare? inner (by simpa only [Scopes.stmt?] using h)
  | _ => exact stmt?_eq_of_not_declare h (by simp) ▸ proper

theorem exists_bool {v : Value} (evaluated : Evaluated stem k G ml mg env t v env₁ o mg₁)
    (hk : t.kind = .boolean) :
    ∃ b, v = .bool b ∧ o = .ofBool b := by
  have kind := evaluated.kind.trans hk
  have operand := evaluated.operand
  cases v with
  | bool b =>
    cases operand
    exact ⟨b, rfl, rfl⟩
  | uninit _ => cases operand
  | _ => cases kind

/-! ## Branches -/

section

variable {test first second between behind : List Instruction} {l : Label}

/-- The parts of a branch: what is tested, the first part, and the second part behind the label. -/
def branchCode (test first between second behind : List Instruction) (l : Label) :
    List Instruction :=
  test ++ (.branch .eq l :: (first ++ (between ++ (.label l :: (second ++ behind)))))

variable {elseBody : List TypedStmt}

theorem endsTerminal_branch (joined : Joined first elseBody between behind)
    (nothing : elseBody = [] → second = [])
    (comes : endsTerminal first = false ∨ endsTerminal second = false) :
    endsTerminal (branchCode test first between second behind l) = false := by
  have front : branchCode test first between second behind l =
      (test ++ (.branch .eq l :: (first ++ between))) ++ (.label l :: (second ++ behind)) := by
    simp [branchCode]
  rw [front, endsTerminal_append, if_neg (by simp)]
  cases joined with
  | single none =>
    rw [nothing none]
    rfl
  | terminal never =>
    rw [never] at comes
    have comes : endsTerminal second = false := by simpa using comes
    rw [append_nil, ← singleton_append, endsTerminal_append]
    split
    · rfl
    · exact comes
  | join l' _ => exact endsTerminal_append_one (.label l :: second) rfl

theorem enters_first (tested : Turns k ml test s s₁ [] [.ofBool true])
    (joined : Joined first elseBody between behind) (nothing : elseBody = [] → second = []) :
    Enters k (branchCode test first between second behind l)
      (branchCode test first between second behind l) ml s first first ml s₁ where
  comes h := endsTerminal_branch joined nothing (.inl h)
  runs f fs rest hl ends := by
    subst hl
    simp only [branchCode, append_assoc, cons_append] at ends ⊢
    refine ⟨_, ends.right.tail,
      (tested f fs _ [] rfl ends).trans (Machine.runs_branch_of_not rfl), fun comes ml' s' => ?_⟩
    cases joined with
    | single none =>
      rw [nothing none]
      exact .one rfl
    | terminal never =>
      rw [comes] at never
      cases never
    | join l' _ =>
      have inside := ends.right.tail.right.right.tail.right
      exact Machine.runs_goto (endsWith_locals inside).after_eq

theorem enters_second (tested : Turns k ml test s s₁ [] [.ofBool false])
    (joined : Joined first elseBody between behind) (nothing : elseBody = [] → second = []) :
    Enters k (branchCode test first between second behind l)
      (branchCode test first between second behind l) ml s second second ml s₁ where
  comes h := endsTerminal_branch joined nothing (.inr h)
  runs f fs rest hl ends := by
    subst hl
    simp only [branchCode, append_assoc, cons_append] at ends ⊢
    have inside := ends.right.tail.right.right
    refine ⟨_, inside.tail, (tested f fs _ [] rfl ends).trans
      (Machine.runs_branch rfl inside.after_eq), fun _ ml' s' => ?_⟩
    cases joined with
    | single _ => exact .refl
    | terminal _ => exact .refl
    | join l' _ => exact .one rfl

end

/-! ## Loops -/

section

variable {test body : List Instruction} {l l' : Label}

/-- A loop behind its label. -/
def loopCode (test body : List Instruction) (l l' : Label) : List Instruction :=
  test ++ (.branch .eq l' :: (body ++ [.goto l, .label l']))

theorem lower_loop (stem : String) (cond : Typed) (body : List TypedStmt) (n : Nat) :
    ((loop cond body).lower stem n).1 = .label (labelOf stem n) ::
      loopCode (cond.lower stem (n + 2)).1 (lowerAll stem body (cond.lower stem (n + 2)).2).1
        (labelOf stem n) (labelOf stem (n + 1)) := by
  simp only [lower, loopCode, append_assoc, cons_append]

theorem moves_loop_end (tested : Turns k ml test s s₁ [] [.ofBool false]) :
    Moves k (.label l :: loopCode test body l l') (loopCode test body l l') ml s ml s₁ := by
  intro f fs rest hl ends
  have ends : f.EndsWith (loopCode test body l l' ++ rest) := ends.tail
  simp only [loopCode, append_assoc, cons_append] at ends ⊢
  apply (tested f fs _ [] hl ends).trans
  subst hl
  exact Machine.runs_branch rfl ends.right.tail.right.tail.after_eq

theorem runs_loop_body {f : Frame} {fs : List Frame} {rest : List Instruction}
    (tested : Turns k ml test s s₁ [] [.ofBool true]) (hl : f.locals = ml)
    (ends : f.EndsWith (.label l :: loopCode test body l l' ++ rest)) :
    Runs k ⟨f.set (loopCode test body l l' ++ rest) [] :: fs, s.1, s.2⟩
        ⟨f.set (body ++ (.goto l :: .label l' :: rest)) [] :: fs, s₁.1, s₁.2⟩ ∧
      f.EndsWith (body ++ (.goto l :: .label l' :: rest)) := by
  have ends : f.EndsWith (loopCode test body l l' ++ rest) := ends.tail
  simp only [loopCode, append_assoc, cons_append] at ends ⊢
  exact ⟨(tested f fs _ [] hl ends).trans (Machine.runs_branch_of_not rfl), ends.right.tail⟩

theorem endsTerminal_loop (test body : List Instruction) (l l' : Label) :
    endsTerminal (.label l :: loopCode test body l l') = false := by
  have front : .label l :: loopCode test body l l' =
      (.label l :: (test ++ (.branch .eq l' :: (body ++ [.goto l])))) ++ [.label l'] := by
    simp [loopCode]
  rw [front]
  exact endsTerminal_append_one _ rfl

theorem enters_again (tested : Turns k ml test s s₁ [] [.ofBool true])
    (moves : Moves k body body ml s₁ ml' s') :
    Enters k (.label l :: loopCode test body l l') (loopCode test body l l') ml s
      (.label l :: loopCode test body l l') (loopCode test body l l') ml' s' where
  comes h := h
  runs f fs rest hl ends := by
    obtain ⟨entered, inside⟩ := runs_loop_body tested hl ends
    refine ⟨rest, ends, ?_, fun _ _ _ => .refl⟩
    apply (entered.trans (moves f fs _ hl inside)).trans
    exact Machine.runs_goto (endsWith_locals ends).after_eq

end

namespace Follows

-- The equations are made here, once for all the forms.
attribute [local simp] Source.declare Source.exec Source.block Source.execAll

variable {T : TypedStmt} {pos : Position} {name : String} {e cond : Expr} {body ss : List Stmt}
  {Ts : List TypedStmt} {st : Stmt} {d : Program.Declaration}
  (follows : Follows limit stem p k G fuel) (proper : Proper G Γ) (inner : Γ.stack.inner ≠ [])
  (agrees : Agrees G Γ env ml mg) (storable : ∀ g ∈ f, g.isStorable)
include follows proper agrees

theorem exec_assign (h : Γ.stmt? limit f (.assign pos name e) = some (T, Γ')) :
    Fine (Executes stem k G f T Γ' env ml mg)
      (Source.exec p (fuel + 1) env (.assign pos name e)) := by
  obtain ⟨depth, form, id, v, slot, t, lives, value, rfl, rfl⟩ := stmt?_assign h
  obtain ⟨type, sound, hk⟩ := Typed.sound_of_valueOf? proper.good value
  rw [Source.exec]
  refine (follows.eval proper agrees type sound).andThen (fun _ h => h) ?_
  rintro ⟨w, env₁⟩ ⟨o, mg₁, evaluated⟩
  obtain ⟨env', assigned, executed⟩ := executed_store f evaluated proper
    (evaluated.agrees agrees) rfl lives hk
  simp only [assigned, Except.map]
  exact executed

theorem exec_print {newline : Bool} (h : Γ.stmt? limit f (.print pos newline e) = some (T, Γ')) :
    Fine (Executes stem k G f T Γ' env ml mg)
      (Source.exec p (fuel + 1) env (.print pos newline e)) := by
  obtain ⟨t, what, value, printed, rfl, rfl⟩ := stmt?_print h
  obtain ⟨type, sound⟩ := Typed.sound_of_value? proper.good value
  rw [Source.exec]
  refine (follows.eval proper agrees type sound).andThen (fun _ => id) ?_
  rintro ⟨w, env₁⟩ ⟨o, mg₁, evaluated⟩
  have shown : what.value? o = some w.shown :=
    Value.value?_of_operand? (evaluated.kind ▸ printed) evaluated.operand
  have stream : Turns k ml [.pushStream] (mg, seen env.output) (mg, seen env.output) []
      [.stream] := .one fun _ _ _ _ _ => rfl
  have print : Turns k ml [.print what newline] (mg₁, seen env₁.output)
      (mg₁, seen (env₁.output ++ [(w, newline)])) [o, .stream] [] := by
    apply Turns.one
    intro f fs rest stack _
    show (what.value? o).map _ = _
    rw [shown, seen_append]
    rfl
  refine ⟨ml, mg₁, ⟨(evaluated.agrees agrees).locals, evaluated.globals⟩, fun n => ?_⟩
  simp only [lower, printed, map_some, toList_some, cons_append]
  constructor
  · exact endsTerminal_append_one (.pushStream :: (t.lower stem n).1) rfl
  · exact (stream.append (((evaluated.turns n).above [.stream]).append print)).moves

theorem exec_call {args : List Expr} (h : Γ.stmt? limit f (.call pos name args) = some (T, Γ')) :
    Fine (Executes stem k G f T Γ' env ml mg)
      (Source.exec p (fuel + 1) env (.call pos name args)) := by
  obtain ⟨g, ts, called, rfl, rfl⟩ := stmt?_call h
  obtain ⟨hf, types, kinds, storable, writable⟩ := call?_eq_some called
  have sound := areSound_of_types? proper.good args types writable
  obtain ⟨depth, form, slot, found⟩ := function?_eq_some hf
  have params := (Signature.isStorable_iff.mp storable).1
  rw [Source.exec]
  refine (follows.args proper agrees types sound (kinds ▸ params)).andThen (fun _ => id) ?_
  rintro ⟨vs, env₁⟩ ⟨ns, mg₁, evaluated⟩
  have agrees₁ := evaluated.agrees agrees
  obtain ⟨unbound, declared⟩ := agrees₁.lookup_function proper found
  dsimp only
  refine (follows.call declared unbound evaluated.globals storable (evaluated.kinds.trans kinds)
    evaluated.images).andThen (fun _ => id) ?_
  rintro ⟨v, env₂⟩ ⟨result, mg₂, called⟩
  refine ⟨ml, mg₂, ⟨called.locals ▸ agrees₁.locals, called.globals⟩, fun n => ?_⟩
  have gives := called.gives
  have pushed := (evaluated.turns n).append (called.turns ml)
  simp only [lower]
  -- A result that nobody uses is thrown away.
  cases gives with
  | nothing none =>
    simp only [none, isSome_none, Bool.false_eq_true, if_false] at pushed ⊢
    exact ⟨endsTerminal_append_one _ rfl, pushed.moves⟩
  | @value w m hk image =>
    have pop : Turns k ml [.pop] (mg₂, seen env₂.output) (mg₂, seen env₂.output) [.int m] [] :=
      .one fun _ _ _ _ _ => rfl
    simp only [hk, isSome_some, if_true] at pushed ⊢
    have whole := pushed.append pop
    rw [append_assoc] at whole
    refine ⟨?_, whole.moves⟩
    rw [endsTerminal_append, if_neg (by simp)]
    rfl

include storable in
theorem exec_ret {e : Option Expr} (h : Γ.stmt? limit f (.ret pos e) = some (T, Γ')) :
    Fine (Executes stem k G f T Γ' env ml mg) (Source.exec p (fuel + 1) env (.ret pos e)) := by
  obtain ⟨rfl, ⟨nothing, rfl, rfl⟩ | ⟨want, e', t, result, rfl, value, rfl⟩⟩ := stmt?_ret h
  · simp only [Source.exec]
    refine ⟨none, mg, .nothing nothing, agrees.globals, fun n => ?_⟩
    simp only [lower]
    intro f fs rest hl given callers ends
    exact runs_ret given
  · obtain ⟨type, sound, hk⟩ := Typed.sound_of_valueOf? proper.good value
    obtain ⟨g, hg, hr⟩ := bind_eq_some_iff.mp result
    have held := (Signature.isStorable_iff.mp (storable g hg)).2 want hr
    rw [Source.exec]
    refine (follows.eval proper agrees type sound).andThen (fun _ => id) ?_
    rintro ⟨w, env₁⟩ ⟨o, mg₁, evaluated⟩
    have hw : w.kind = want := evaluated.kind.trans hk
    obtain ⟨n, image, rfl⟩ := Value.exists_intImage? (hw ▸ held) evaluated.operand
    refine ⟨some n, mg₁, .value (hw ▸ result) image, evaluated.globals, fun m => ?_⟩
    simp only [lower]
    intro f fs rest hl given callers ends
    rw [append_assoc] at ends ⊢
    apply (evaluated.turns m f fs _ [] hl ends).trans
    cases fs with
    | nil => exact absurd rfl (callers rfl)
    | cons caller others =>
      obtain ⟨body, left, locals, stack, returns⟩ := f
      have given : returns = true := given
      subst given
      exact .one rfl

include inner

theorem declare_variable {kind : Kind} (storable : isStorable kind)
    (h : Γ.local? limit name kind (some e) = some (T, Γ')) :
    Fine (fun env' => Executes stem k G none T Γ' env ml mg (.done env'))
      (Source.declare p (fuel + 1) env (.variable name kind (some e))) := by
  obtain ⟨declared, t, l, value, located, rfl⟩ := insertLocal?_of_local? h
  obtain ⟨slot, inserted, -⟩ := insert?_of_insertLocal? declared
  obtain ⟨type, sound, hk⟩ := Typed.sound_of_valueOf? proper.good value
  have proper' : Proper G Γ' :=
    proper.insert? inner (x := .newVariable name kind) storable inserted
  rw [Source.declare]
  refine (follows.eval proper agrees type sound).andThen (fun _ => id) ?_
  rintro ⟨w, env₁⟩ ⟨o, mg₁, evaluated⟩
  have agrees₁ := evaluated.agrees agrees
  have hw : w.kind = kind := evaluated.kind.trans hk
  have accepted : (Value.uninit kind).assign w = .ok w := if_pos hw.symm
  -- The store finds the variable declared, and holding nothing.
  have agrees₂ : Agrees G Γ' (env₁.declare name (.variable (.uninit kind))) ml mg₁ :=
    agrees₁.insert? proper inner inserted fun base s rest _ =>
      ⟨name, .uninit kind, rfl, rfl, fun i _ init => by cases init⟩
  obtain ⟨depth, lives⟩ := find?_of_insert? inserted
  have lives : Γ'.stack.find? name =
    some (depth, ⟨.variable, .variable name (.uninit kind), slot⟩) := lives
  obtain ⟨env', assigned, executed⟩ := executed_store none evaluated proper' agrees₂
    (output_declare ..) lives hk
  rw [assign_declare (agrees₁.locals_ne proper inner) hw] at assigned
  cases assigned
  rw [locate?, lives] at located
  cases located
  simp only [accepted]
  exact executed

theorem declare_succ (h : Γ.declare? limit d = some (T, Γ')) :
    Fine (fun env' => Executes stem k G none T Γ' env ml mg (.done env'))
      (Source.declare p (fuel + 1) env d) := by
  cases d with
  | «variable» name kind init =>
    simp only [Scopes.declare?] at h
    split at h
    · next storable =>
        cases init with
        | some e => exact follows.declare_variable proper inner agrees storable h
        | none =>
          obtain ⟨declared, skip⟩ := insertLocal?_of_local? h
          have skip : T = .skip := skip
          subst skip
          obtain ⟨slot, inserted, -⟩ := insert?_of_insertLocal? declared
          have unset : initial kind env.locals.isEmpty = .uninit kind := by
            rw [isEmpty_eq_false_iff.mpr (agrees.locals_ne proper inner)]
            cases kind <;> rfl
          simp only [Source.declare, unset]
          refine executed_skip none ?_ (output_declare ..)
          exact agrees.insert? proper inner inserted fun base s rest _ =>
            ⟨name, .uninit kind, rfl, rfl, fun i _ init => by cases init⟩
    · cases h
  | constant name kind init =>
    obtain ⟨Γ₁, declared, heq⟩ := map_eq_some_iff.mp h
    cases heq
    obtain ⟨t, slot, type, known, inserted⟩ := insert?_of_constant? declared
    rcases agrees.eval_known p proper init type known fuel with found | found
    · simp only [Source.declare, found]
      refine executed_skip none ?_ (output_declare ..)
      exact agrees.insert? proper inner inserted fun base s rest _ => ⟨name, rfl⟩
    · simp only [Source.declare, found]
      exact .error (by decide)
  | array name kind length values =>
    obtain ⟨Γ₁, declared, heq⟩ := map_eq_some_iff.mp h
    cases heq
    obtain ⟨a, slot, inserted, rfl⟩ := insert?_of_array? declared
    simp only [Source.declare]
    refine executed_skip none ?_ (output_declare ..)
    exact agrees.insert? proper inner inserted fun base s rest _ => ⟨a, rfl⟩

include storable

theorem exec_branch {thenBody elseBody : List Stmt}
    (h : Γ.stmt? limit f (.branch pos cond thenBody elseBody) = some (T, Γ')) :
    Fine (Executes stem k G f T Γ' env ml mg)
      (Source.exec p (fuel + 1) env (.branch pos cond thenBody elseBody)) := by
  obtain ⟨t, first, Γ₁, second, Γ₂, value, h₁, h₂, rfl, rfl⟩ := stmt?_branch h
  obtain ⟨type, sound, hk⟩ := Typed.sound_of_valueOf? proper.good value
  rw [Source.exec]
  refine (follows.eval proper agrees type sound).andThen (fun _ => id) ?_
  rintro ⟨v, env₁⟩ ⟨o, mg₁, evaluated⟩
  obtain ⟨b, rfl, rfl⟩ := exists_bool evaluated hk
  have agrees₁ := evaluated.agrees agrees
  have nothing (m : Nat) : second = [] → (lowerAll stem second m).1 = [] := by
    rintro rfl
    rw [lowerAll]
  cases b with
  | true =>
    simp only [if_true]
    refine (follows.block proper inner agrees₁ storable h₁).andThen (fun _ => id)
      fun outcome executed => executed.within fun n => ?_
    obtain ⟨between, behind, m, joined, code⟩ := lower_branch stem t first second n
    rw [code]
    exact ⟨_, enters_first (evaluated.turns n) joined (nothing m)⟩
  | false =>
    simp only [Bool.false_eq_true, if_false]
    refine (follows.block proper inner agrees₁ storable h₂).andThen (fun _ => id)
      fun outcome executed => executed.within fun n => ?_
    obtain ⟨between, behind, m, joined, code⟩ := lower_branch stem t first second n
    rw [code]
    exact ⟨m, enters_second (evaluated.turns n) joined (nothing m)⟩

/-- The step for a loop. The code behind its label is run again with less fuel. -/
theorem loop_succ (h : Γ.stmt? limit f (.loop pos cond body) = some (T, Γ')) :
    Fine (Executed k G f (fun n => (T.lower stem n).1) (fun n => (T.lower stem n).1.tail) Γ' env ml
      mg) (Source.exec p (fuel + 1) env (.loop pos cond body)) := by
  obtain ⟨t, Ts, Γ₁, value, h₁, rfl, rfl⟩ := stmt?_loop h
  obtain ⟨type, sound, hk⟩ := Typed.sound_of_valueOf? proper.good value
  rw [Source.exec]
  refine (follows.eval proper agrees type sound).andThen (fun _ => id) ?_
  rintro ⟨v, env₁⟩ ⟨o, mg₁, evaluated⟩
  obtain ⟨b, rfl, rfl⟩ := exists_bool evaluated hk
  have agrees₁ := evaluated.agrees agrees
  cases b with
  | false =>
    refine ⟨ml, mg₁, agrees₁, fun n => ?_⟩
    simp only [lower_loop, tail_cons]
    exact ⟨endsTerminal_loop .., moves_loop_end (evaluated.turns _)⟩
  | true =>
    dsimp only
    refine (follows.block proper inner agrees₁ storable h₁).andThen (fun _ => id) ?_
    intro outcome executed
    cases outcome with
    | returned w env₂ =>
      obtain ⟨result, mg₂, gives, globals, returns⟩ := executed
      refine ⟨result, mg₂, gives, globals, fun n => ?_⟩
      simp only [lower_loop, tail_cons]
      intro f fs rest hl given callers ends
      obtain ⟨entered, inside⟩ := runs_loop_body (evaluated.turns _) hl ends
      exact entered.trans (returns _ f fs _ hl given callers inside)
    | done env₂ =>
      obtain ⟨ml₂, mg₂, agrees₂, moves⟩ := executed
      dsimp only
      refine (follows.loop proper inner agrees₂ storable h).andThen (fun _ => id)
        fun outcome again => again.within fun n => ⟨n, ?_⟩
      simp only [lower_loop, tail_cons]
      exact enters_again (evaluated.turns _) (moves _).2

theorem exec_loop (h : Γ.stmt? limit f (.loop pos cond body) = some (T, Γ')) :
    Fine (Executes stem k G f T Γ' env ml mg)
      (Source.exec p (fuel + 1) env (.loop pos cond body)) := by
  refine (follows.loop_succ proper inner agrees storable h).andThen (fun _ => id)
    fun outcome executed => executed.within fun n => ⟨n, fun comes => comes, ?_⟩
  obtain ⟨t, Ts, Γ₁, -, -, rfl, -⟩ := stmt?_loop h
  simp only [lower_loop, tail_cons]
  -- The first time, control comes from above, through the label.
  rintro f fs rest rfl ends
  exact ⟨rest, ends, .one rfl, fun _ _ _ => .refl⟩

theorem block_succ (h : (Γ.enter false).stmts? limit f ss = some (Ts, Γ')) :
    Fine (Executed k G f (fun n => (lowerAll stem Ts n).1) (fun n => (lowerAll stem Ts n).1) Γ env
      ml mg) (Source.block p (fuel + 1) env ss) := by
  have opened := inner_enter_ne Γ false
  rw [Source.block]
  refine (follows.all (proper.enter inner).1 opened (agrees.enter proper inner) storable h).andThen
    (fun _ => id) fun outcome executed => ?_
  cases outcome with
  | done env₁ =>
    obtain ⟨ml₁, mg₁, agrees₁, moves⟩ := executed
    exact ⟨ml₁, mg₁, agrees₁.leave (declares_of_stmts? opened h), moves⟩
  | returned w env₁ => exact executed

/-- The step for statements, one case for each form. -/
theorem exec_succ (h : Γ.stmt? limit f st = some (T, Γ')) :
    Fine (Executes stem k G f T Γ' env ml mg) (Source.exec p (fuel + 1) env st) := by
  cases st with
  | declare pos d =>
    simp only [Scopes.stmt?] at h
    rw [Source.exec]
    exact (follows.declare proper inner agrees h).andThen (fun _ => id) fun _ executed => executed
  | assign pos name e => exact follows.exec_assign proper agrees h
  | print pos newline e => exact follows.exec_print proper agrees h
  | branch pos cond thenBody elseBody => exact follows.exec_branch proper inner agrees storable h
  | loop pos cond body => exact follows.exec_loop proper inner agrees storable h
  | ret pos e => exact follows.exec_ret proper agrees storable h
  | call pos name args => exact follows.exec_call proper agrees h
  | block pos body =>
    obtain ⟨Ts, Γ₁, h₁, rfl, rfl⟩ := stmt?_block h
    simp only [Source.exec]
    exact follows.block proper inner agrees storable h₁

theorem all_succ (h : Γ.stmts? limit f ss = some (Ts, Γ')) :
    Fine (Executed k G f (fun n => (lowerAll stem Ts n).1) (fun n => (lowerAll stem Ts n).1) Γ' env
      ml mg) (Source.execAll p (fuel + 1) env ss) := by
  cases ss with
  | nil =>
    simp only [stmts?] at h
    cases h
    simp only [Source.execAll]
    refine ⟨ml, mg, agrees, fun n => ?_⟩
    simp only [lowerAll]
    exact ⟨rfl, Turns.nil.moves⟩
  | cons st rest =>
    obtain ⟨T, Γ₁, others, h₁, h₂, rfl⟩ := stmts?_cons h
    rw [Source.execAll]
    refine (follows.exec proper inner agrees storable h₁).andThen (fun _ => id) ?_
    intro outcome executed
    cases outcome with
    | returned w env₁ =>
      obtain ⟨result, mg₁, gives, globals, returns⟩ := executed
      refine ⟨result, mg₁, gives, globals, fun n => ?_⟩
      simp only [lowerAll]
      exact (returns n).append _
    | done env₁ =>
      obtain ⟨ml₁, mg₁, agrees₁, moves⟩ := executed
      dsimp only
      refine (follows.all (proper.stmt? inner h₁) (declares_of_stmt? inner h₁).inner
        agrees₁ storable h₂).andThen (fun _ => id) fun outcome executed =>
          executed.within fun n => ⟨(T.lower stem n).2, ?_⟩
      simp only [lowerAll]
      exact (moves n).2.enters (moves n).1 _

omit follows proper inner agrees storable

theorem zero : Follows limit stem p k G 0 := by
  constructor <;> intros <;>
    simp only [Source.eval, Source.evalArgs, Source.call, Source.declare, Source.exec, Source.block,
      Source.execAll] <;> exact .error (by decide)

theorem of_linked (linked : Linked limit stem p k G) {fuel : Nat} :
    Follows limit stem p k G fuel := by
  induction fuel with
  | zero => exact zero
  | succ fuel follows =>
    constructor
    case eval => exact follows.eval_succ
    case args => exact follows.args_succ
    case call => exact follows.call_succ linked
    case declare => exact follows.declare_succ
    case exec => exact follows.exec_succ
    case loop => exact follows.loop_succ
    case block => exact follows.block_succ
    case all => exact follows.all_succ

end Follows

end Jasm.Source
