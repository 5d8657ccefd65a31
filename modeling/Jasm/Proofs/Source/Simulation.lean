import Jasm.Proofs.Compile.Bodies
import Jasm.Proofs.Compile.Endings
import Jasm.Proofs.Compile.Numbering
import Jasm.Proofs.Source.Operands

/-!
# The machine follows the program

A run of a program as it stands is followed by a run of its code. The values of an expression come
to stand on the operand stack, statements move behind their code with an empty stack, and a call
comes back to the frame it came from. All along, variables agree with the slots and fields they live
in, and the output is the same.

All this is shown at once by induction on the fuel of the run (`Follows`): a call needs it for the
statements of a body, with less fuel, whatever function that is.
-/

namespace Jasm.Source

open Assembly Compile Scopes Typed List
open Machine (Runs)
open Program (Expr Stmt)

variable {α : Type} {P : α → Prop} {t : Typed} {v : Value} {vs : List Value} {ns : List Int32}
  {n : Int32} {name : String} {f : Frame} {fs : List Frame} {rest : List Instruction}
  {stack : List Operand}

/-- What is seen of what was printed. -/
def seen (output : List (Value × Bool)) : List (Value × Bool) :=
  output.map fun x => (x.1.shown, x.2)

theorem seen_append (first second : List (Value × Bool)) :
    seen (first ++ second) = seen first ++ seen second := map_append

/-- A run that succeeds does so with a result of which `P` holds, and one that fails is not
stuck. -/
def Fine {α : Type} (P : α → Prop) : Except Fault α → Prop
  | .ok a => P a
  | .error fault => fault ≠ .stuck

theorem Fine.error {fault : Fault} (h : fault ≠ .stuck) :
    Fine P (.error fault) := h

@[elab_as_elim]
theorem Fine.andThen {motive : Except Fault α → Prop} {x : Except Fault α} (h : Fine P x)
    (failed : ∀ fault, fault ≠ .stuck → motive (.error fault)) (next : ∀ a, P a → motive (.ok a)) :
    motive x := by
  cases x with
  | error fault => exact failed fault h
  | ok a => exact next a h

variable {k : Assembly.Class} {ml ml' : Nat → Option Int32} {mg mg' : String → Option Int32}
  {s s₁ s₂ : Shared}

/-! ## Statements -/

/-- The callers with the result of a call. -/
def resume : Option Int32 → List Frame → List Frame
  | some n, caller :: callers => { caller with stack := .int n :: caller.stack } :: callers
  | _, callers => callers

/-- Wherever `code` stands, control comes from `start`, a part of it, to its end. -/
def Moves (k : Assembly.Class) (code start : List Instruction) (ml : Nat →
    Option Int32) (s : Shared)
    (ml' : Nat → Option Int32) (s' : Shared) : Prop :=
  ∀ (f : Frame) (fs : List Frame) (rest : List Instruction), f.locals = ml →
    f.EndsWith (code ++ rest) →
      Runs k ⟨f.set (start ++ rest) [] :: fs, s.1, s.2⟩
        ⟨Frame.set { f with locals := ml' } rest [] :: fs, s'.1, s'.2⟩

/-- Wherever `code` stands, control comes from `start` back to the caller. -/
def Returns (k : Assembly.Class) (code start : List Instruction) (ml : Nat → Option Int32)
    (s : Shared) (result : Option Int32) (s' : Shared) : Prop :=
  ∀ (f : Frame) (fs : List Frame) (rest : List Instruction), f.locals = ml →
    f.returns = result.isSome → (result.isSome → fs ≠ []) → f.EndsWith (code ++ rest) →
      Runs k ⟨f.set (start ++ rest) [] :: fs, s.1, s.2⟩ ⟨resume result fs, s'.1, s'.2⟩

/-! ## Functions -/

/-- What a function with some result gives is held as a number. -/
inductive Gives (result? : Option Kind) : Option Value → Option Int32 → Prop where
  | nothing : result? = none → Gives result? none none
  | value {w : Value} {n : Int32} : result? = some w.kind → w.intImage? = some n →
    Gives result? (some w) (some n)

/-- Every function that can be called is there, and its method is in the class. -/
def Linked (limit : Int) (stem : String) (p : Program) (k : Assembly.Class) (G : Scope Symbol) :
    Prop :=
  ∀ name form f slot, G.get? name = some ⟨form, .function f, slot⟩ →
    ∃ fn m, p.functions.find? (·.name = name) = some fn ∧ fn.signature = f ∧
      k.method? f.name f.arity f.result?.isSome = some m ∧ MethodOf limit stem G fn m

/-! ## What is shown -/

section

variable (limit : Int) (stem : String) (p : Program) (k : Assembly.Class) (G : Scope Symbol)

/-- The code of an expression pushes the value that the run finds. -/
structure Evaluated (ml : Nat → Option Int32) (mg : String → Option Int32) (env : Env) (t : Typed)
    (v : Value) (env' : Env) (o : Operand) (mg' : String → Option Int32) : Prop where
  kind : v.kind = t.kind
  operand : v.operand? = some o
  locals : env'.locals = env.locals
  globals : GlobalsAgree G env'.globals mg'
  turns : ∀ n, Turns k ml (t.lower stem n).1 (mg, seen env.output) (mg', seen env'.output) [] [o]

/-- The code of arguments pushes their values, which can be stored. -/
structure EvaluatedArgs (ml : Nat → Option Int32) (mg : String → Option Int32) (env : Env)
    (ts : List Typed) (vs : List Value) (env' : Env) (ns : List Int32)
    (mg' : String → Option Int32) : Prop where
  kinds : vs.map Value.kind = ts.map Typed.kind
  images : List.Forall₂ (fun v n => v.intImage? = some n) vs ns
  locals : env'.locals = env.locals
  globals : GlobalsAgree G env'.globals mg'
  turns : ∀ n, Turns k ml (lowerArgs stem ts n).1 (mg, seen env.output) (mg', seen env'.output) []
    (ns.map Operand.int).reverse

/-- The call of a function takes its arguments from the stack and puts its result there. -/
structure Called (mg : String → Option Int32) (env : Env) (f : Signature) (ns : List Int32)
    (v : Option Value) (env' : Env) (result : Option Int32) (mg' : String →
      Option Int32) : Prop where
  gives : Gives f.result? v result
  locals : env'.locals = env.locals
  globals : GlobalsAgree G env'.globals mg'
  turns : ∀ ml, Turns k ml [.invoke f.name f.arity f.result?.isSome] (mg, seen env.output)
    (mg', seen env'.output) (ns.map Operand.int).reverse (result.toList.map Operand.int)

/-- What the code of an expression does in a run that finds a value. -/
abbrev Evaluates (ml : Nat → Option Int32) (mg : String → Option Int32) (env : Env) (t : Typed)
    (a : Value × Env) : Prop :=
  ∃ o mg', Evaluated stem k G ml mg env t a.1 a.2 o mg'

/-- The code of statements moves on or returns, as the run does. Where it moves on, its last
instruction is not one that control cannot come behind. -/
def Executed (f : Option Signature) (code start : Nat → List Instruction) (Γ' : Scopes) (env : Env)
    (ml : Nat → Option Int32) (mg : String → Option Int32) : Outcome → Prop
  | .done env' => ∃ ml' mg', Agrees G Γ' env' ml' mg' ∧
      ∀ n, endsTerminal (code n) = false ∧
        Moves k (code n) (start n) ml (mg, seen env.output) ml' (mg', seen env'.output)
  | .returned v env' => ∃ result mg', Gives (f.bind Signature.result?) v result ∧
      GlobalsAgree G env'.globals mg' ∧
      ∀ n, Returns k (code n) (start n) ml (mg, seen env.output) result (mg', seen env'.output)

/-- What the code of a statement does in a run of it. -/
abbrev Executes (f : Option Signature) (T : TypedStmt) (Γ' : Scopes) (env : Env)
    (ml : Nat → Option Int32) (mg : String → Option Int32) : Outcome → Prop :=
  Executed k G f (fun n => (T.lower stem n).1) (fun n => (T.lower stem n).1) Γ' env ml mg

/-- Runs with some fuel are followed. -/
structure Follows (fuel : Nat) : Prop where
  eval : ∀ {Γ env ml mg e t}, Proper G Γ → Agrees G Γ env ml mg → Γ.type? e = some t → t.Sound →
    Fine (fun (v, env') => ∃ o mg', Evaluated stem k G ml mg env t v env' o mg')
      (Source.eval p fuel env e)
  args : ∀ {Γ env ml mg es ts}, Proper G Γ → Agrees G Γ env ml mg → Γ.types? es = some ts →
    areSound ts → (∀ kind ∈ ts.map Typed.kind, isStorable kind) →
    Fine (fun (vs, env') => ∃ ns mg', EvaluatedArgs stem k G ml mg env ts vs env' ns mg')
      (evalArgs p fuel env es)
  call : ∀ {env mg name form f slot vs ns}, G.get? name = some ⟨form, .function f, slot⟩ →
    env.lookup name = none → GlobalsAgree G env.globals mg → f.isStorable →
    vs.map Value.kind = f.params → List.Forall₂ (fun v n => v.intImage? = some n) vs ns →
    Fine (fun (v, env') => ∃ result mg', Called k G mg env f ns v env' result mg')
      (Source.call p fuel env name vs)
  declare : ∀ {Γ Γ' env ml mg d T}, Proper G Γ → Γ.stack.inner ≠ [] → Agrees G Γ env ml mg →
    Γ.declare? limit d = some (T, Γ') →
    Fine (fun env' => Executed k G none (fun n => (T.lower stem n).1)
      (fun n => (T.lower stem n).1) Γ' env ml mg (.done env')) (Source.declare p fuel env d)
  exec : ∀ {Γ Γ' env ml mg f st T}, Proper G Γ → Γ.stack.inner ≠ [] → Agrees G Γ env ml mg →
    (∀ g ∈ f, g.isStorable) → Γ.stmt? limit f st = some (T, Γ') →
    Fine (Executed k G f (fun n => (T.lower stem n).1) (fun n => (T.lower stem n).1) Γ' env ml mg)
      (Source.exec p fuel env st)
  /-- A loop is entered again behind its label. -/
  loop : ∀ {Γ Γ' env ml mg f pos cond body T}, Proper G Γ → Γ.stack.inner ≠ [] →
    Agrees G Γ env ml mg → (∀ g ∈ f, g.isStorable) →
    Γ.stmt? limit f (.loop pos cond body) = some (T, Γ') →
    Fine (Executed k G f (fun n => (T.lower stem n).1) (fun n => (T.lower stem n).1.tail) Γ' env ml
      mg) (Source.exec p fuel env (.loop pos cond body))
  block : ∀ {Γ Γ' env ml mg f ss Ts}, Proper G Γ → Γ.stack.inner ≠ [] → Agrees G Γ env ml mg →
    (∀ g ∈ f, g.isStorable) → (Γ.enter false).stmts? limit f ss = some (Ts, Γ') →
    Fine (Executed k G f (fun n => (lowerAll stem Ts n).1) (fun n => (lowerAll stem Ts n).1) Γ env
      ml mg) (Source.block p fuel env ss)
  all : ∀ {Γ Γ' env ml mg f ss Ts}, Proper G Γ → Γ.stack.inner ≠ [] → Agrees G Γ env ml mg →
    (∀ g ∈ f, g.isStorable) → Γ.stmts? limit f ss = some (Ts, Γ') →
    Fine (Executed k G f (fun n => (lowerAll stem Ts n).1) (fun n => (lowerAll stem Ts n).1) Γ' env
      ml mg) (execAll p fuel env ss)

end

variable {limit : Int} {stem : String} {p : Program} {G : Scope Symbol} {fuel : Nat}
  {Γ Γ' : Scopes} {env env' : Env}

/-! ## Expressions -/

theorem Evaluated.agrees {o : Operand} (h : Evaluated stem k G ml mg env t v env' o mg')
    (agrees : Agrees G Γ env ml mg) :
    Agrees G Γ env' ml mg' :=
  ⟨h.locals ▸ agrees.locals, h.globals⟩

theorem EvaluatedArgs.agrees {ts : List Typed}
    (h : EvaluatedArgs stem k G ml mg env ts vs env' ns mg') (agrees : Agrees G Γ env ml mg) :
    Agrees G Γ env' ml mg' :=
  ⟨h.locals ▸ agrees.locals, h.globals⟩

theorem exists_constant_of_known (known : t.static.isInit) :
    ∃ v, t = .constant v := by
  cases t with
  | constant v => exact ⟨v, rfl⟩
  | _ => cases known

theorem evaluated_known {stem : String} (k : Assembly.Class) (agrees : Agrees G Γ env ml mg)
    (sound : t.Sound) (known : t.static.isInit) :
    ∃ o, Evaluated stem k G ml mg env t t.static env o mg := by
  obtain ⟨v, rfl⟩ := exists_constant_of_known known
  simp only [Typed.Sound] at sound
  obtain ⟨i, hi⟩ := Option.isSome_iff_exists.mp sound
  obtain ⟨o, ho, turns⟩ := turns_constant hi
  refine ⟨o, rfl, ho, rfl, agrees.globals, fun n => ?_⟩
  rw [lower, hi]
  exact turns

theorem turns_loadLocal {name : String} {i : Nat} (h : ml i = some n) :
    Turns k ml [loadCode name (.frame (i : Nat))] s s [] [.int n] := by
  apply Turns.one
  intro f fs rest stack hl
  show (f.locals i).map _ = _
  rw [hl, h]
  rfl

theorem turns_loadGlobal (h : s.1 name = some n) :
    Turns k ml [loadCode name .global] s s [] [.int n] := by
  apply Turns.one
  intro f fs rest stack hl
  show (s.1 name).map _ = _
  rw [h]
  rfl

theorem evaluated_variable {stem : String} (k : Assembly.Class) {id : String} {depth : Nat}
    {form : Form} {slot : Option Nat} (proper : Proper G Γ) (agrees : Agrees G Γ env ml mg)
    (found : Γ.stack.find? name = some (depth, ⟨form, .variable id v, slot⟩)) :
    ∃ w, env.lookup name = some (.variable w) ∧ (w.isInit → ∃ o, Evaluated stem k G ml mg env
      (.variable name v.kind (Γ.location depth ⟨form, .variable id v, slot⟩)) w env o mg) := by
  have storable : isStorable v.kind := (proper.good.find? found).item
  obtain ⟨w, hw, kind, lives⟩ := agrees.lookup_variable proper found
  refine ⟨w, hw, fun init => ?_⟩
  rcases lives with ⟨i, located, image⟩ | ⟨located, n, image, stored⟩
  · obtain ⟨n, hn⟩ : ∃ n, w.intImage? = some n := by
      rw [← kind] at storable
      cases w <;> first | exact ⟨_, rfl⟩ | cases storable | cases init
    refine ⟨.int n, kind, Value.operand?_of_intImage? hn, rfl, agrees.globals, fun m => ?_⟩
    rw [lower, located]
    exact turns_loadLocal (by rw [← image init, hn])
  · refine ⟨.int n, kind, Value.operand?_of_intImage? image, rfl, agrees.globals, fun m => ?_⟩
    rw [lower, located]
    exact turns_loadGlobal stored

namespace Follows

variable {t : Typed} {name : String} {op : Operator} {e : Expr} {es : List Expr} {ts : List Typed}
  (follows : Follows limit stem p k G fuel) (proper : Proper G Γ) (agrees : Agrees G Γ env ml mg)
include follows proper agrees

omit follows in
theorem eval_ref {fuel : Nat} (type : Γ.type? (.ref name) = some t)
    (unknown : t.static.isInit = false) :
    Fine (Evaluates stem k G ml mg env t) (Source.eval p (fuel + 1) env (.ref name)) := by
  simp only [type?] at type
  rcases ref?_cases type with ⟨depth, form, id, v, slot, found, rfl⟩ |
    ⟨depth, form, id, v, slot, found, rfl⟩
  · have known : v.isInit := (proper.good.find? found).item
    simp only [static] at unknown
    rw [known] at unknown
    cases unknown
  · obtain ⟨w, hw, evaluated⟩ := evaluated_variable k proper agrees found
    simp only [Source.eval, hw]
    split
    · next init =>
        obtain ⟨o, evaluated⟩ := evaluated init
        exact ⟨o, mg, evaluated⟩
    · exact .error (by decide)

theorem eval_unary {e : Expr} (type : Γ.type? (.unary op e) = some t) (sound : t.Sound)
    (unknown : t.static.isInit = false) :
    Fine (Evaluates stem k G ml mg env t) (Source.eval p (fuel + 1) env (.unary op e)) := by
  obtain ⟨te, v, he, -, rfl⟩ := type?_unary type
  rw [static_folded fun _ => rfl] at unknown
  rw [folded_eq, if_neg (by simp [unknown])] at sound ⊢
  simp only [Typed.Sound] at sound
  obtain ⟨sound, hk, hop⟩ := sound
  rw [Source.eval]
  refine (follows.eval proper agrees he sound).andThen (fun _ => id) ?_
  rintro ⟨w, env₁⟩ ⟨o, mg₁, evaluated⟩
  rw [← evaluated.kind] at hop
  obtain ⟨w', o', applied, kind, operand, turns⟩ := turns_unary evaluated.operand hop
  simp only [applied, result, Except.map]
  refine ⟨o', mg₁, ?_, operand, evaluated.locals, evaluated.globals, fun n => ?_⟩
  · rw [kind, evaluated.kind, ← hk]
    rfl
  · rw [lower]
    exact (evaluated.turns n).append (turns _ _ _)

theorem eval_binary {l r : Expr} (type : Γ.type? (.binary op l r) = some t) (sound : t.Sound)
    (unknown : t.static.isInit = false) :
    Fine (Evaluates stem k G ml mg env t) (Source.eval p (fuel + 1) env (.binary op l r)) := by
  obtain ⟨tl, tr, v, hl, hr, hv, rfl⟩ := type?_binary type
  rw [static_folded fun _ => rfl] at unknown
  rw [folded_eq, if_neg (by simp [unknown])] at sound ⊢
  simp only [Typed.Sound] at sound
  obtain ⟨soundl, soundr, hk, storable, hb, ha, kind⟩ := sound
  have unfolded : (env.knows l && env.knows r) = false := by
    rw [agrees.knows_eq proper l hl, agrees.knows_eq proper r hr, ← Value.binary_isInit hv, unknown]
  rw [Source.eval]
  refine (follows.eval proper agrees hl soundl).andThen (fun _ => id) ?_
  rintro ⟨vl, env₁⟩ ⟨ol, mg₁, evaluatedl⟩
  dsimp only
  refine (follows.eval proper (evaluatedl.agrees agrees) hr soundr).andThen (fun _ => id) ?_
  rintro ⟨vr, env₂⟩ ⟨or, mg₂, evaluatedr⟩
  simp only [unfolded, Bool.false_or]
  split
  · next fits =>
      rw [← evaluatedl.kind] at storable ha hk
      have applied := binaryTurns stem evaluatedl.operand evaluatedr.operand storable
        (evaluatedr.kind.trans hk) hb ha fits
      unfold BinaryTurns at applied
      split at applied
      · next w hw =>
          obtain ⟨hkw, o, operand, turns⟩ := applied
          rw [hw]
          refine ⟨o, mg₂, ?_, operand, evaluatedr.locals.trans evaluatedl.locals,
            evaluatedr.globals, fun n => ?_⟩
          · show w.kind = v.kind
            rw [hkw, evaluatedl.kind, kind]
          · rw [lower]
            exact (evaluatedl.turns n).append
              (((evaluatedr.turns _).above [ol]).append (turns _ _ _ _))
      · next fault hw =>
          rw [hw]
          simp [result, Except.map, Fine, applied]
  · exact .error (by decide)

theorem eval_call {args : List Expr} (type : Γ.type? (.call name args) = some t) (sound : t.Sound) :
    Fine (Evaluates stem k G ml mg env t) (Source.eval p (fuel + 1) env (.call name args)) := by
  obtain ⟨f, ts, hf, hts, -, -, rfl⟩ := type?_call type
  simp only [Typed.Sound] at sound
  obtain ⟨sound, kinds, storable, hasResult⟩ := sound
  obtain ⟨depth, form, slot, found⟩ := function?_eq_some hf
  have params := (Signature.isStorable_iff.mp storable).1
  rw [Source.eval]
  refine (follows.args proper agrees hts sound (kinds ▸ params)).andThen (fun _ => id) ?_
  rintro ⟨vs, env₁⟩ ⟨ns, mg₁, evaluated⟩
  obtain ⟨unbound, declared⟩ := (evaluated.agrees agrees).lookup_function proper found
  dsimp only
  refine (follows.call declared unbound evaluated.globals storable (evaluated.kinds.trans kinds)
    evaluated.images).andThen (fun _ => id) ?_
  rintro ⟨v, env₂⟩ ⟨result, mg₂, called⟩
  have gives := called.gives
  have turns := called.turns ml
  cases gives with
  | nothing no =>
    rw [no] at hasResult
    cases hasResult
  | @value w n kind image =>
    refine ⟨.int n, mg₂, ?_, Value.operand?_of_intImage? image,
      called.locals.trans evaluated.locals, called.globals, fun m => ?_⟩
    · unfold Signature.result? at kind
      split at kind
      · cases kind
      · exact (Option.some.inj kind).symm
    · rw [lower]
      exact (evaluated.turns m).append turns

theorem eval_succ (type : Γ.type? e = some t) (sound : t.Sound) :
    Fine (Evaluates stem k G ml mg env t) (Source.eval p (fuel + 1) env e) := by
  cases known : t.static.isInit with
  | true =>
    rcases agrees.eval_known p proper e type known (fuel + 1) with found | found
    · rw [found]
      obtain ⟨o, evaluated⟩ := evaluated_known k agrees sound known
      exact ⟨o, mg, evaluated⟩
    · rw [found]
      exact .error (by decide)
  | false =>
    cases e with
    | literal v =>
      simp only [type?] at type
      cases type
      simp only [static] at known
      rw [Value.eq_uninit_of_not_isInit known] at sound
      simp [Typed.Sound, Emit.constant?] at sound
    | ref name => exact eval_ref proper agrees type known
    | unary op e => exact follows.eval_unary proper agrees type sound known
    | binary op l r => exact follows.eval_binary proper agrees type sound known
    | call name args => exact follows.eval_call proper agrees type sound

theorem args_succ (types : Γ.types? es = some ts) (sound : areSound ts)
    (storable : ∀ kind ∈ ts.map Typed.kind, isStorable kind) :
    Fine (fun (vs, env') => ∃ ns mg', EvaluatedArgs stem k G ml mg env ts vs env' ns mg')
      (Source.evalArgs p (fuel + 1) env es) := by
  cases es with
  | nil =>
    simp only [types?] at types
    cases types
    simp only [Source.evalArgs]
    refine ⟨[], mg, rfl, .nil, rfl, agrees.globals, fun n => ?_⟩
    rw [lowerArgs]
    exact .nil
  | cons e rest =>
    simp only [types?] at types
    split at types
    · next t others he hrest =>
        cases types
        simp only [areSound] at sound
        have fewer : ∀ kind ∈ others.map Typed.kind, isStorable kind :=
          fun kind mem => storable kind (mem_cons_of_mem _ mem)
        rw [Source.evalArgs]
        refine (follows.eval proper agrees he sound.1).andThen (fun _ => id) ?_
        rintro ⟨v, env₁⟩ ⟨o, mg₁, evaluated⟩
        dsimp only
        refine (follows.args proper (evaluated.agrees agrees) hrest sound.2 fewer).andThen
          (fun _ => id) ?_
        rintro ⟨vs, env₂⟩ ⟨ns, mg₂, evaluated'⟩
        have held : isStorable v.kind := by
          rw [evaluated.kind]
          exact storable t.kind (mem_cons_self ..)
        obtain ⟨n, image, rfl⟩ := Value.exists_intImage? held evaluated.operand
        refine ⟨n :: ns, mg₂, ?_, .cons image evaluated'.images,
          evaluated'.locals.trans evaluated.locals, evaluated'.globals, fun m => ?_⟩
        · rw [map_cons, map_cons, evaluated'.kinds, evaluated.kind]
        · rw [lowerArgs, map_cons, reverse_cons]
          exact (evaluated.turns m).append ((evaluated'.turns _).above [.int n])
    · cases types

end Follows

/-! ## Calls -/

theorem popInts_reverse (ns : List Int32) (stack : List Operand) (taken : List Int32) :
    popInts ns.length ((ns.map Operand.int).reverse ++ stack) taken =
      some (ns ++ taken, stack) := by
  induction ns using List.reverseRecOn generalizing taken with
  | nil => rfl
  | append_singleton ns n ih =>
    rw [length_append, map_append, reverse_append]
    show popInts ns.length ((ns.map Operand.int).reverse ++ stack) (n :: taken) = _
    rw [ih, append_assoc]
    rfl

theorem runs_invoke {arity : Nat} {returns : Bool} {m : Method}
    (method : k.method? name arity returns = some m) (length : ns.length = arity) :
    Runs k
      ⟨f.set (.invoke name arity returns :: rest) ((ns.map Operand.int).reverse ++ stack) :: fs,
        s.1, s.2⟩
      ⟨.start m.body ns m.returns :: f.set rest stack :: fs, s.1, s.2⟩ := by
  have popped := popInts_reverse ns stack []
  rw [length, append_nil] at popped
  apply Runs.one
  delta Machine.step Machine.exec
  dsimp only [Frame.set]
  rw [method, popped]

theorem runs_ret (h : f.returns = false) :
    Runs k ⟨f.set (.ret :: rest) stack :: fs, s.1, s.2⟩ ⟨fs, s.1, s.2⟩ := by
  apply Runs.one
  show (if f.returns = true then none else some (Machine.mk fs s.1 s.2)) = _
  rw [h]
  rfl

theorem endsWith_method (stem : String) (f : Signature) (Ts : List TypedStmt) (n : Nat)
    (args : List Int32) (returns : Bool) :
    (Frame.start (Scopes.method stem f Ts n).1.body args returns).EndsWith
      (Scopes.method stem f Ts n).1.body := by
  refine ⟨?_, suffix_refl _⟩
  have nodup := (numbered_lowerAll stem Ts n).nodup
  show (labels ((lowerAll stem Ts n).1 ++ _)).Nodup
  split
  · simpa using nodup
  · simpa [Instruction.label?] using nodup

theorem image_of_images (images : List.Forall₂ (fun v n => v.intImage? = some n) vs ns) (i : Nat)
    (v : Value) (h : vs[i]? = some v) : v.intImage? = ns[i]? := by
  induction images generalizing i with
  | nil => cases h
  | cons image _ ih =>
    cases i with
    | zero =>
      cases h
      exact image
    | succ i => exact ih i h

namespace Follows

/-- The step for calls: the method runs in a new frame and comes back to the old one. -/
theorem call_succ (follows : Follows limit stem p k G fuel) (linked : Linked limit stem p k G)
    {name : String} {form : Form} {f : Signature} {slot : Option Nat} {vs : List Value}
    {ns : List Int32} (declared : G.get? name = some ⟨form, .function f, slot⟩)
    (unbound : env.lookup name = none) (globals : GlobalsAgree G env.globals mg)
    (storable : f.isStorable) (kinds : vs.map Value.kind = f.params)
    (images : List.Forall₂ (fun v n => v.intImage? = some n) vs ns) :
    Fine (fun (v, env') => ∃ result mg', Called k G mg env f ns v env' result mg')
      (Source.call p (fuel + 1) env name vs) := by
  obtain ⟨fn, m, found, rfl, method, Γ₀, Ts, n, outside, below, resolved, rfl⟩ :=
    linked name form f slot declared
  obtain ⟨Γ₁, Γ₂, params, body, -, lastReturns⟩ := body?_eq_some resolved
  have length : ns.length = fn.signature.arity := by
    rw [← images.length_eq, Signature.arity, ← kinds, length_map]
  -- The body starts with the arguments in the slots of the parameters.
  obtain ⟨proper, frames⟩ := proper_method outside.good below outside.inner outside.bases
  have agrees : Agrees G (Γ₀.enter true) ⟨[fun _ => none], env.globals, env.output⟩
      (fun i => ns[i]?) mg := by
    refine ⟨?_, globals⟩
    rw [frames]
    exact .cons (levelAgrees_empty _ 0) .nil
  obtain ⟨l, bound, proper₁, agrees₁⟩ := agrees.parameters? proper frames params
    (Signature.isStorable_iff.mp storable).1 kinds
    (fun i v hv => by simpa using image_of_images images i v hv)
  have inner := (declares_of_parameters? (inner_enter_ne Γ₀ true) params).inner
  have ends := endsWith_method stem fn.signature Ts n ns fn.signature.result?.isSome
  simp only [Source.call, unbound, found, bound]
  refine (follows.all (f := some fn.signature) proper₁ inner agrees₁ (by simpa using storable)
    body).andThen (fun _ => id) fun outcome executed => ?_
  cases outcome with
  | done env' =>
    obtain ⟨ml', mg', agrees', moves⟩ := executed
    obtain ⟨comes, moves⟩ := moves n
    -- A function with a result never comes to its end.
    have none : fn.signature.result? = none := by
      cases hr : fn.signature.result? with
      | none => rfl
      | some kind =>
        have never := endsTerminal_of_lastReturns stem fn.body (lastReturns (by simp [hr])) body n
        rw [never] at comes
        cases comes
    have code : (Scopes.method stem fn.signature Ts n).1.body =
        (lowerAll stem Ts n).1 ++ [.ret] := by
      simp [Scopes.method, none]
    simp only [none, Option.isSome_none, Bool.false_eq_true, if_false]
    refine ⟨Option.none, mg', .nothing none, rfl, agrees'.globals, fun ml => ?_⟩
    intro f fs rest stack _ _
    apply (runs_invoke method length).trans
    rw [code] at ends ⊢
    apply (moves _ (f.set rest stack :: fs) [.ret] rfl ends).trans
    apply runs_ret
    rw [none]
    rfl
  | returned v env' =>
    obtain ⟨result, mg', gives, globals', returns⟩ := executed
    have gives : Gives fn.signature.result? v result := gives
    have same : v.isSome = fn.signature.result?.isSome ∧
        result.isSome = fn.signature.result?.isSome := by
      cases gives with
      | nothing no => simp [no]
      | value hk _ => simp [hk]
    simp only [same.1, if_true]
    refine ⟨result, mg', gives, rfl, globals', fun ml => ?_⟩
    intro f fs rest stack _ _
    apply (runs_invoke method length).trans
    have back := returns n _ (f.set rest stack :: fs) _ rfl same.2.symm
      (fun _ => cons_ne_nil _ _) ends
    cases result with
    | none => exact back
    | some n => exact back

end Follows

end Jasm.Source
