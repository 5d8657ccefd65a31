import Jasm.Proofs.Source.Marking
import Jasm.Proofs.Source.Programs

/-!
# Reads of variables that hold nothing

A walk that warns of nothing has seen, for every variable that is read, an assignment to it further
up in the program. That does not mean that the assignment is run: it may stand in a body that
control passes over. This is the only way in which a read of a variable that holds nothing escapes
the walk. `passed` lists the bodies that a run passes over, each with the state in which it does. As
long as all that such a body assigns to holds something already, the marks of the walk are right
about the run.
-/

namespace Jasm

open Program.Stmt List Option Function
open Program (Stmt)

/-! ## Complete programs -/

namespace Program

def Declaration.Complete : Declaration → Prop
  | .variable _ _ init => ∀ e ∈ init, e.Complete
  | .constant _ _ e => e.Complete
  | .array .. => True

mutual

/-- Every literal of the statement holds something. -/
def Stmt.Complete : Stmt → Prop
  | .declare _ d => d.Complete
  | .assign _ _ e | .print _ _ e => e.Complete
  | .ret _ value => ∀ e ∈ value, e.Complete
  | .branch _ cond thenBody elseBody => cond.Complete ∧ AllComplete thenBody ∧ AllComplete elseBody
  | .loop _ cond body => cond.Complete ∧ AllComplete body
  | .call _ _ args => AreComplete args
  | .block _ body => AllComplete body

def AllComplete : List Stmt → Prop
  | [] => True
  | s :: rest => s.Complete ∧ AllComplete rest

end

end Program

/-- Every literal of the program holds something. -/
structure Program.Complete (p : Program) : Prop where
  globals : ∀ g ∈ p.globals, g.2.Complete
  functions : ∀ f ∈ p.functions, Program.AllComplete f.body
  main : Program.AllComplete p.main

namespace Draft

open Program (AllComplete)

theorem MeansOptional.complete {e : Option Expr} {e' : Option Program.Expr}
    (h : MeansOptional e e') :
    ∀ v ∈ e', v.Complete := by
  cases h with
  | none => simp
  | some means => simpa using complete_of_means _ means

theorem Stmt.Declares.complete {s : Stmt} {d : Program.Declaration} (h : s.Declares d) :
    d.Complete := by
  cases h with
  | «variable» _ _ _ init => exact init.complete
  | constant _ _ _ _ _ means => exact complete_of_means _ means
  | array => trivial

mutual

theorem stmtComplete_of_means : {s : Stmt} → (s' : Program.Stmt) → s.Means s' → s'.Complete
  | _, .declare _ d, h => by
    cases h with
    | declare declares => simpa only [Complete] using declares.complete
  | _, .assign _ _ e, h => by
    cases h with
    | assign _ _ _ means => simpa only [Complete] using complete_of_means e means
  | _, .print _ _ e, h => by
    cases h with
    | print _ _ _ means => simpa only [Complete] using complete_of_means e means
  | _, .branch _ cond thenBody elseBody, h => by
    cases h with
    | branch _ _ means first second =>
      simpa only [Complete] using ⟨complete_of_means cond means,
        allComplete_of_means thenBody first, allComplete_of_means elseBody second⟩
  | _, .loop _ cond body, h => by
    cases h with
    | loop _ _ means inner =>
      simpa only [Complete] using
        ⟨complete_of_means cond means, allComplete_of_means body inner⟩
  | _, .ret _ _, h => by
    cases h with
    | ret _ value => simpa only [Complete] using value.complete
  | _, .call _ _ args, h => by
    cases h with
    | call _ _ means => simpa only [Complete] using areComplete_of_means args means
  | _, .block _ body, h => by
    cases h with
    | block _ inner => simpa only [Complete] using allComplete_of_means body inner

theorem allComplete_of_means : {ss : List Stmt} → (ss' : List Program.Stmt) →
    List.Forall₂ Stmt.Means ss ss' → AllComplete ss'
  | _, [], _ => by simp only [AllComplete]
  | _, s' :: rest, h => by
    cases h with
    | cons first others =>
      simpa only [AllComplete] using
        ⟨stmtComplete_of_means s' first, allComplete_of_means rest others⟩

end

theorem Means.complete {d : Draft} {p : Program} (h : d.Means p) : p.Complete where
  globals g hg := by
    obtain ⟨s, -, declares⟩ := exists_of_forall₂ h.globals hg
    exact declares.complete
  functions f hf := by
    obtain ⟨f₀, means⟩ := exists_of_forall₂ h.functions hf
    exact allComplete_of_means f.body means.body
  main := allComplete_of_means p.main h.main

end Draft

namespace Source

open Marks
open Program (Expr Stmt AllComplete AreComplete)

/-! ## Bodies that control passes over -/

/-- What a name means is no variable that holds nothing. -/
def Binding.holds : Binding → Bool
  | .variable v => v.isInit
  | _ => true

def Env.holds (env : Env) (name : String) : Bool := (env.lookup name).all Binding.holds

/-- A body that control passes over, and the state in which it does. -/
structure Passed where
  env : Env
  body : List Stmt

/-- All that the body assigns to holds something already. -/
def Passed.harmless (q : Passed) : Bool := (targetsOf q.body).all q.env.holds

/-- What is passed over behind a part of a run, if that comes to its end. -/
def behind {α : Type} (r : Except Fault α) (f : α → List Passed) : List Passed :=
  match r with
  | .ok a => f a
  | .error _ => []

def behindStmt (r : Except Fault Outcome) (f : Env → List Passed) : List Passed :=
  match r with
  | .ok (.done env) => f env
  | _ => []

section

variable (p : Program)

mutual

def passedEval : Nat → Env → Expr → List Passed
  | n + 1, env, .unary _ e => passedEval n env e
  | n + 1, env, .binary _ l r =>
    passedEval n env l ++ behind (eval p n env l) fun a => passedEval n a.2 r
  | n + 1, env, .call name args =>
    passedArgs n env args ++ behind (evalArgs p n env args) fun a => passedCall n a.2 name a.1
  | _, _, _ => []

def passedArgs : Nat → Env → List Expr → List Passed
  | n + 1, env, e :: rest =>
    passedEval n env e ++ behind (eval p n env e) fun a => passedArgs n a.2 rest
  | _, _, _ => []

def passedCall : Nat → Env → String → List Value → List Passed
  | 0, _, _, _ => []
  | n + 1, env, name, vs =>
    match env.lookup name, p.functions.find? (·.name = name) with
    | none, some f =>
      match parameters (fun _ => none) f.params vs with
      | some l => passedAll n { env with locals := [l] } f.body
      | none => []
    | _, _ => []

def passedDeclare : Nat → Env → Program.Declaration → List Passed
  | n + 1, env, .variable _ _ (some e) => passedEval n env e
  | n + 1, env, .constant _ _ e => passedEval n env e
  | _, _, _ => []

/-- The bodies that a statement passes over. The second body of a branch is passed over behind the
first one. -/
def passedExec : Nat → Env → Stmt → List Passed
  | n + 1, env, .declare _ d => passedDeclare n env d
  | n + 1, env, .assign _ _ e => passedEval n env e
  | n + 1, env, .print _ _ e => passedEval n env e
  | n + 1, env, .branch _ cond thenBody elseBody =>
    passedEval n env cond ++ behind (eval p n env cond) fun a =>
      match a.1 with
      | .bool true =>
        passedBlock n a.2 thenBody ++
          behindStmt (block p n a.2 thenBody) fun env => [⟨env, elseBody⟩]
      | .bool false => ⟨a.2, thenBody⟩ :: passedBlock n a.2 elseBody
      | _ => []
  | n + 1, env, .loop pos cond body =>
    passedEval n env cond ++ behind (eval p n env cond) fun a =>
      match a.1 with
      | .bool true =>
        passedBlock n a.2 body ++
          behindStmt (block p n a.2 body) fun env => passedExec n env (.loop pos cond body)
      | .bool false => [⟨a.2, body⟩]
      | _ => []
  | n + 1, env, .ret _ (some e) => passedEval n env e
  | n + 1, env, .call _ name args =>
    passedArgs n env args ++ behind (evalArgs p n env args) fun a => passedCall n a.2 name a.1
  | n + 1, env, .block _ body => passedBlock n env body
  | _, _, _ => []

def passedBlock : Nat → Env → List Stmt → List Passed
  | n + 1, env, ss => passedAll n env.enter ss
  | 0, _, _ => []

def passedAll : Nat → Env → List Stmt → List Passed
  | n + 1, env, s :: rest =>
    passedExec n env s ++ behindStmt (exec p n env s) fun env => passedAll n env rest
  | _, _, _ => []

end

def passedGlobals (n : Nat) (env : Env) : List (Position × Program.Declaration) → List Passed
  | [] => []
  | (_, d) :: rest =>
    passedDeclare p n env d ++ behind (declare p n env d) fun env => passedGlobals n env rest

/-- The bodies that a run of a program passes over. -/
def passed (n : Nat) : List Passed :=
  passedGlobals p n ⟨[], fun _ => none, []⟩ p.globals ++
    behind (declareAll p n ⟨[], fun _ => none, []⟩ p.globals) fun env =>
      passedAll p n env.enter p.main

end

/-! ## Marks that are right about a run -/

/-- What a name means is as marked. -/
def Binding.Sound (marked : Bool) : Binding → Prop
  | .variable v => marked = true → v.isInit
  | .constant v => v.isInit
  | .array => True

theorem Binding.Sound.mark {b : Binding} {marked : Bool} (h : b.Sound marked) (holds : b.holds) :
    b.Sound true := by
  cases b with
  | «variable» v => exact fun _ => holds
  | constant v => exact h
  | array => trivial

theorem Binding.Sound.unmark {b : Binding} (h : b.Sound true) (marked : Bool) : b.Sound marked := by
  cases b with
  | «variable» v => exact fun _ => h rfl
  | constant v => exact h
  | array => trivial

/-- The marks of a block are right about what it declares. -/
def Level.Sound (l : Level) (m : String → Option Bool) : Prop :=
  ∀ name, Option.Rel (fun b marked => b.Sound marked) (l name) (m name)

def Level.AllSound (l : Level) : Prop := ∀ name b, l name = some b → b.Sound true

/-- The marks are right about a state of a run. -/
structure Sound (env : Env) (M : Marks) : Prop where
  globals : env.globals.AllSound
  locals : List.Forall₂ Level.Sound env.locals M

section

variable {l l' globals globals' : Level} {m : String → Option Bool} {ls ls' : List Level}
  {M M' : Marks}
  {name : String} {b : Binding} {v : Value} {marked : Bool} {env env' : Env}

theorem Level.sound_nil : Level.Sound (fun _ => none) fun _ => none := fun _ => .none

theorem Level.Sound.update (h : l.Sound m) (name : String) (hb : b.Sound marked) :
    Level.Sound (Function.update l name (some b)) (Function.update m name (some marked)) := by
  intro x
  by_cases hx : x = name
  · subst hx
    rw [update_self, update_self]
    exact .some hb
  · simpa [hx] using h x

theorem Level.AllSound.update (h : l.AllSound) (hb : b.Sound true) :
    Level.AllSound (Function.update l name (some b)) := by
  intro x b' hx
  by_cases same : x = name
  · subst same
    rw [update_self] at hx
    cases hx
    exact hb
  · rw [update_of_ne same] at hx
    exact h x b' hx

theorem Level.Sound.cases (h : l.Sound m) (name : String) :
    (l name = none ∧ m name = none) ∨
      ∃ b marked, l name = some b ∧ m name = some marked ∧ b.Sound marked := by
  have here := h name
  revert here
  cases l name <;> cases m name <;> intro here <;> cases here
  · exact .inl ⟨rfl, rfl⟩
  · exact .inr ⟨_, _, rfl, rfl, ‹_›⟩

theorem Sound.lookup (h : Sound env M) (readable : M.readable name = true)
    (found : env.lookup name = some b) : b.Sound true := by
  obtain ⟨globals, locals⟩ := h
  unfold Env.lookup at found
  generalize env.locals = ls at locals found
  induction locals with
  | nil => exact globals name b found
  | cons here _ ih =>
    rw [Source.lookup] at found
    rw [Marks.readable] at readable
    rcases here.cases name with ⟨hl, hm⟩ | ⟨b', marked, hl, hm, sound⟩
    · rw [hl] at found
      rw [hm] at readable
      exact ih readable found
    · rw [hl] at found
      rw [hm] at readable
      cases found
      cases readable
      exact sound

theorem forall₂_assign (h : List.Forall₂ Level.Sound ls M)
    (holds : (Source.lookup globals name ls).all Binding.holds) :
    List.Forall₂ Level.Sound ls (M.assign name) := by
  induction h with
  | nil => exact .nil
  | cons here rest ih =>
    rw [Source.lookup] at holds
    rcases here.cases name with ⟨hl, hm⟩ | ⟨b, marked, hl, hm, sound⟩
    · rw [hl] at holds
      rw [assign_of_none hm]
      exact .cons here (ih holds)
    · rw [hl] at holds
      rw [assign_of_some hm]
      have marked := here.update name (sound.mark holds)
      rw [← hl, update_eq_self] at marked
      exact .cons marked rest

theorem forall₂_of_assign (h : List.Forall₂ Level.Sound ls (M.assign name)) :
    List.Forall₂ Level.Sound ls M := by
  induction M generalizing ls with
  | nil => exact h
  | cons m rest ih =>
    cases hm : m name with
    | none =>
      rw [assign_of_none hm] at h
      cases h with
      | cons here others => exact .cons here (ih others)
    | some marked =>
      rw [assign_of_some hm] at h
      cases h with
      | cons here others =>
        refine .cons ?_ others
        rcases here.cases name with ⟨-, none⟩ | ⟨b, _, hl, same, sound⟩
        · simp at none
        · rw [update_self] at same
          cases same
          have back := here.update name (sound.unmark marked)
          rwa [← hl, update_eq_self, update_idem, ← hm,
            update_eq_self] at back

theorem Sound.assignAll {names : List String} (h : Sound env M)
    (holds : ∀ name ∈ names, env.holds name = true) : Sound env (M.assignAll names) := by
  induction names generalizing M with
  | nil => exact h
  | cons name rest ih =>
    rw [forall_mem_cons] at holds
    exact ih ⟨h.globals, forall₂_assign h.locals holds.1⟩ holds.2

theorem Sound.of_assignAll {names : List String} (h : Sound env (M.assignAll names)) :
    Sound env M := by
  induction names generalizing M with
  | nil => exact h
  | cons name rest ih => exact ⟨(ih h).globals, forall₂_of_assign (ih h).locals⟩

theorem Level.eq_of_assign (h : l.assign name v = some l') :
    (l name).isSome ∧ l' = Function.update l name (some (.variable v)) := by
  unfold Level.assign at h
  split at h
  · next old found =>
      unfold Value.assign at h
      split at h
      · next new assigned =>
          split at assigned
          · cases assigned
            cases h
            exact ⟨by rw [found]; rfl, rfl⟩
          · cases assigned
      · cases h
  · cases h

theorem forall₂_of_stored (h : List.Forall₂ Level.Sound ls M) (sound : globals.AllSound)
    (held : v.isInit) (stored : Source.assign globals name v ls = some (ls', globals')) :
    globals'.AllSound ∧ List.Forall₂ Level.Sound ls' (M.assign name) := by
  have holds : (Binding.variable v).Sound true := fun _ => held
  induction h generalizing ls' with
  | nil =>
    obtain ⟨g, assigned, same⟩ := map_eq_some_iff.mp stored
    cases same
    rw [(Level.eq_of_assign assigned).2]
    exact ⟨sound.update holds, .nil⟩
  | cons here rest ih =>
    rw [Source.assign] at stored
    rcases here.cases name with ⟨hl, hm⟩ | ⟨b, marked, hl, hm, -⟩
    · rw [hl] at stored
      obtain ⟨⟨others, g⟩, assigned, same⟩ := map_eq_some_iff.mp stored
      cases same
      rw [assign_of_none hm]
      exact ⟨(ih assigned).1, .cons here (ih assigned).2⟩
    · rw [hl] at stored
      obtain ⟨l', assigned, same⟩ := map_eq_some_iff.mp stored
      cases same
      rw [assign_of_some hm, (Level.eq_of_assign assigned).2]
      exact ⟨sound, .cons (here.update _ holds) rest⟩

section

variable (h : Sound env M)
include h

theorem Sound.assign (held : v.isInit) (stored : env.assign name v = .ok env') :
    Sound env' (M.assign name) := by
  unfold Env.assign at stored
  split at stored
  · next ls globals assigned =>
      cases stored
      obtain ⟨sound, locals⟩ := forall₂_of_stored h.locals h.globals held assigned
      exact ⟨sound, locals⟩
  · cases stored

theorem Sound.enter : Sound env.enter M.enter :=
  ⟨h.globals, .cons Level.sound_nil h.locals⟩

theorem Sound.leave : Sound env.leave M.tail := by
  obtain ⟨globals, locals⟩ := h
  refine ⟨globals, ?_⟩
  unfold Env.leave
  generalize env.locals = ls at locals ⊢
  cases locals with
  | nil => exact .nil
  | cons _ rest => exact rest

theorem Sound.declare (hb : b.Sound marked) (global : env.locals = [] → b.Sound true) :
    Sound (env.declare name b) (M.declare name marked) := by
  obtain ⟨globals, locals⟩ := h
  unfold Env.declare
  generalize env.locals = ls at locals global ⊢
  cases locals with
  | nil => exact ⟨globals.update (global rfl), .nil⟩
  | cons here rest => exact ⟨globals, .cons (here.update _ hb) rest⟩

theorem Sound.of_locals (locals : env'.locals = env.locals) (globals : env'.globals.AllSound) :
    Sound env' M :=
  ⟨globals, locals ▸ h.locals⟩

end

theorem sound_parameters {params : List (String × Kind)} {vs : List Value} (h : l.Sound m)
    (held : ∀ v ∈ vs, v.isInit) (declared : parameters l params vs = some l') :
    List.Forall₂ Level.Sound [l'] (Marks.parameters params [m]) := by
  induction params generalizing l m vs with
  | nil =>
    cases vs with
    | nil =>
      cases declared
      exact .cons h .nil
    | cons => cases declared
  | cons param rest ih =>
    cases vs with
    | nil => cases declared
    | cons v vs =>
      rw [forall_mem_cons] at held
      rw [parameters] at declared
      unfold Value.assign at declared
      split at declared
      · next w assigned =>
          split at assigned
          · cases assigned
            exact ih (h.update (b := .variable v) _ fun _ => held.1) held.2 declared
          · cases assigned
      · cases declared

end

/-! ## Runs -/

/-- A part of a run does not end at a read of a variable that holds nothing, and `P` holds of what
it comes to. -/
def Avoids {α : Type} (P : α → Prop) (r : Except Fault α) : Prop :=
  match r with
  | .ok a => P a
  | .error f => f ≠ .unassigned

def Harmless (qs : List Passed) : Prop := ∀ q ∈ qs, q.harmless = true

/-- The variables of the running function stay, and the global ones hold something. -/
def Yields {α : Type} (env : Env) (held : α → Prop) (a : α × Env) : Prop :=
  held a.1 ∧ a.2.locals = env.locals ∧ a.2.globals.AllSound

/-- The marks are right behind a statement, unless it returns. -/
def Ends (M : Marks) : Outcome → Prop
  | .done env => Sound env M
  | .returned v env => (∀ w ∈ v, w.isInit) ∧ env.globals.AllSound

/-- All that a program does with an amount of fuel avoids reads of variables that hold nothing, as
long as what it passes over is harmless. -/
structure SoundAt (p : Program) (n : Nat) : Prop where
  eval {env : Env} {M : Marks} {e : Expr} : Sound env M → e.Complete →
    (∀ name ∈ e.names, M.readable name = true) → Harmless (passedEval p n env e) →
    Avoids (Yields env fun v => v.isInit = true) (eval p n env e)
  args {env : Env} {M : Marks} {es : List Expr} : Sound env M → AreComplete es →
    (∀ name ∈ Program.namesOfAll es, M.readable name = true) → Harmless (passedArgs p n env es) →
    Avoids (Yields env fun vs => ∀ v ∈ vs, v.isInit = true) (evalArgs p n env es)
  call {env : Env} {name : String} {vs : List Value} : env.globals.AllSound →
    (∀ v ∈ vs, v.isInit = true) → Harmless (passedCall p n env name vs) →
    Avoids (Yields env fun v => ∀ w ∈ v, w.isInit = true) (call p n env name vs)
  declare {env : Env} {M M' : Marks} {pos : Position} {d : Program.Declaration} : Sound env M →
    d.Complete → track (.declare pos d) M = some M' → Harmless (passedDeclare p n env d) →
    Avoids (Sound · M') (declare p n env d)
  exec {env : Env} {M M' : Marks} {s : Stmt} : Sound env M → s.Complete → track s M = some M' →
    Harmless (passedExec p n env s) → Avoids (Ends M') (exec p n env s)
  block {env : Env} {M M' : Marks} {ss : List Stmt} : Sound env M → AllComplete ss →
    trackAll ss M.enter = some M' → Harmless (passedBlock p n env ss) →
    Avoids (Ends M'.tail) (block p n env ss)
  all {env : Env} {M M' : Marks} {ss : List Stmt} : Sound env M → AllComplete ss →
    trackAll ss M = some M' → Harmless (passedAll p n env ss) →
    Avoids (Ends M') (execAll p n env ss)

section

variable {p : Program} {n : Nat} {env env₁ : Env} {M M' : Marks} {α : Type} {P : α → Prop}
  {motive : Except Fault α → Prop} {r : Except Fault α}

theorem avoids_result {r : Except Value.Fault Value} (held : ∀ v, r = .ok v → v.isInit = true)
    (locals : env₁.locals = env.locals) (globals : env₁.globals.AllSound) :
    Avoids (Yields env fun v => v.isInit = true) ((result r).map (·, env₁)) := by
  cases r with
  | ok v => exact ⟨held v rfl, locals, globals⟩
  | error f =>
    show (if f.isMismatch then Fault.stuck else .divisionByZero) ≠ .unassigned
    split <;> decide

theorem Avoids.error {f : Fault} (h : f ≠ .unassigned) :
    Avoids P (.error f) := h

@[elab_as_elim]
theorem Avoids.andThen (h : Avoids P r) (failed : ∀ f, f ≠ .unassigned → motive (.error f))
    (next : ∀ a, P a → motive (.ok a)) : motive r := by
  cases r with
  | error f => exact failed f h
  | ok a => exact next a h

@[elab_as_elim]
theorem Avoids.before {g : α → List Passed} (h : Avoids P r) (harmless : Harmless (behind r g))
    (failed : ∀ f, f ≠ .unassigned → motive (.error f))
    (next : ∀ a, P a → Harmless (g a) → motive (.ok a)) : motive r := by
  cases r with
  | error f => exact failed f h
  | ok a => exact next a h harmless

section

variable (at_ : SoundAt p n) (sound : Sound env M) {pos : Position} {cond : Expr} {ss : List Stmt}
include at_ sound

/-- The step for expressions, one case for each form. -/
theorem eval_succ {e : Expr} (complete : e.Complete)
    (readable : ∀ name ∈ e.names, M.readable name = true)
    (harmless : Harmless (passedEval p (n + 1) env e)) :
    Avoids (Yields env fun v => v.isInit = true) (eval p (n + 1) env e) := by
  cases e with
  | literal v =>
    rw [Expr.Complete] at complete
    rw [eval]
    exact ⟨complete, rfl, sound.globals⟩
  | ref name =>
    rw [eval]
    cases found : env.lookup name with
    | none => exact .error (by decide)
    | some b =>
      have held := sound.lookup (readable name (by simp [Expr.names])) found
      cases b with
      | «variable» v =>
        show Avoids _ (if v.isInit then _ else _)
        rw [if_pos (held rfl)]
        exact ⟨held rfl, rfl, sound.globals⟩
      | constant v => exact ⟨held, rfl, sound.globals⟩
      | array => exact .error (by decide)
  | unary op e =>
    rw [Expr.Complete] at complete
    rw [Expr.names] at readable
    rw [passedEval] at harmless
    rw [eval]
    refine (at_.eval sound complete readable harmless).andThen (fun _ => id) ?_
    rintro ⟨v, env₁⟩ ⟨held, locals, globals⟩
    exact avoids_result (fun w hw => (Value.unary_isInit hw).trans held) locals globals
  | binary op l r =>
    rw [Expr.Complete] at complete
    rw [Expr.names, forall_mem_append] at readable
    rw [passedEval, Harmless, forall_mem_append] at harmless
    rw [eval]
    refine (at_.eval sound complete.1 readable.1 harmless.1).before harmless.2 (fun _ => id) ?_
    rintro ⟨vl, env₁⟩ ⟨heldL, localsL, globalsL⟩ harmless
    dsimp only
    refine (at_.eval (sound.of_locals localsL globalsL) complete.2 readable.2 harmless).andThen
      (fun _ => id) ?_
    rintro ⟨vr, env₂⟩ ⟨heldR, localsR, globalsR⟩
    dsimp only
    split
    · refine avoids_result (fun w hw => ?_) (localsR.trans localsL) globalsR
      rw [Value.binary_isInit hw, Bool.and_eq_true]
      exact ⟨heldL, heldR⟩
    · exact .error (by decide)
  | call name args =>
    rw [Expr.Complete] at complete
    rw [Expr.names] at readable
    rw [passedEval, Harmless, forall_mem_append] at harmless
    rw [eval]
    refine (at_.args sound complete readable harmless.1).before harmless.2 (fun _ => id) ?_
    rintro ⟨vs, env₁⟩ ⟨held, locals, globals⟩ harmless
    dsimp only
    refine (at_.call globals held harmless).andThen (fun _ => id) ?_
    rintro ⟨_ | v, env₂⟩ ⟨held', locals', globals'⟩
    · exact .error (by decide)
    · exact ⟨held' v rfl, locals'.trans locals, globals'⟩

theorem args_succ {es : List Expr} (complete : AreComplete es)
    (readable : ∀ name ∈ Program.namesOfAll es, M.readable name = true)
    (harmless : Harmless (passedArgs p (n + 1) env es)) :
    Avoids (Yields env fun vs => ∀ v ∈ vs, v.isInit = true) (evalArgs p (n + 1) env es) := by
  cases es with
  | nil =>
    rw [evalArgs]
    exact ⟨by simp, rfl, sound.globals⟩
  | cons e rest =>
    rw [AreComplete] at complete
    rw [Program.namesOfAll, forall_mem_append] at readable
    rw [passedArgs, Harmless, forall_mem_append] at harmless
    rw [evalArgs]
    refine (at_.eval sound complete.1 readable.1 harmless.1).before harmless.2 (fun _ => id) ?_
    rintro ⟨v, env₁⟩ ⟨held, locals, globals⟩ harmless
    dsimp only
    refine (at_.args (sound.of_locals locals globals) complete.2 readable.2 harmless).andThen
      (fun _ => id) ?_
    rintro ⟨vs, env₂⟩ ⟨held', locals', globals'⟩
    exact ⟨forall_mem_cons.mpr ⟨held, held'⟩, locals'.trans locals, globals'⟩

omit sound in
/-- The step for calls: parameters count as assigned, and hold their arguments. -/
theorem call_succ (tracked : Tracked p) (complete : p.Complete) {name : String}
    {vs : List Value} (globals : env.globals.AllSound) (held : ∀ v ∈ vs, v.isInit = true)
    (harmless : Harmless (passedCall p (n + 1) env name vs)) :
    Avoids (Yields env fun v => ∀ w ∈ v, w.isInit = true) (call p (n + 1) env name vs) := by
  rw [passedCall] at harmless
  rw [call]
  cases named : env.lookup name with
  | some b => exact .error (by decide)
  | none =>
    cases found : p.functions.find? (·.name = name) with
    | none => exact .error (by decide)
    | some f =>
      rw [named, found] at harmless
      dsimp only at harmless ⊢
      cases declared : parameters (fun _ => none) f.params vs with
      | none => exact .error (by decide)
      | some l =>
        rw [declared] at harmless
        have mem := mem_of_find?_eq_some found
        obtain ⟨M, walked⟩ := tracked.functions f mem
        have start : Sound { env with locals := [l] } (.parameters f.params (.enter [])) :=
          ⟨globals, sound_parameters Level.sound_nil held declared⟩
        dsimp only
        refine (at_.all start (complete.functions f mem) walked harmless).andThen (fun _ => id) ?_
        rintro (env' | ⟨v, env'⟩) ended
        · dsimp only
          split
          · exact .error (by decide)
          · exact ⟨by simp, rfl, ended.globals⟩
        · dsimp only
          split
          · exact ⟨ended.1, rfl, ended.2⟩
          · exact .error (by decide)

omit at_ sound in
theorem initial_sound {kind : Kind} (storable : Assembly.isStorable kind) :
    (initial kind true).isInit = true := by
  cases kind <;> first | rfl | cases storable

theorem declare_succ {d : Program.Declaration} (complete : d.Complete)
    (walked : track (.declare pos d) M = some M')
    (harmless : Harmless (passedDeclare p (n + 1) env d)) :
    Avoids (Sound · M') (declare p (n + 1) env d) := by
  cases d with
  | «variable» name kind init =>
    cases init with
    | none =>
      rw [track] at walked
      split at walked
      · next storable =>
          cases walked
          rw [declare]
          have unmarked : (Binding.variable (initial kind env.locals.isEmpty)).Sound false :=
            fun marked => by cases marked
          refine sound.declare unmarked fun global => ?_
          rw [global]
          exact fun _ => initial_sound storable
      · cases walked
    | some e =>
      rw [track] at walked
      obtain ⟨readable, rfl⟩ := of_reading walked
      rw [passedDeclare] at harmless
      rw [declare]
      refine (at_.eval sound (complete e rfl) readable harmless).andThen (fun _ => id) ?_
      rintro ⟨v, env₁⟩ ⟨held, locals, globals⟩
      dsimp only
      unfold Value.assign
      by_cases fits : (Value.uninit kind).kind = v.kind
      · rw [if_pos fits]
        exact (sound.of_locals locals globals).declare (b := .variable v) (fun _ => held)
          fun _ _ => held
      · rw [if_neg fits]
        exact .error (by decide)
  | constant name kind e =>
    rw [track] at walked
    obtain ⟨readable, rfl⟩ := of_reading walked
    rw [passedDeclare] at harmless
    rw [declare]
    refine (at_.eval sound complete readable harmless).andThen (fun _ => id) ?_
    rintro ⟨v, env₁⟩ ⟨held, locals, globals⟩
    exact (sound.of_locals locals globals).declare (b := .constant v) held fun _ => held
  | array name kind length values =>
    rw [track] at walked
    cases walked
    rw [declare]
    exact sound.declare (b := .array) trivial fun _ => trivial

/-- The step for a branch. What the other body assigns to holds something, or the run is harmful. -/
theorem exec_branch_succ {thenBody elseBody : List Stmt}
    (complete : (Stmt.branch pos cond thenBody elseBody).Complete)
    (walked : track (.branch pos cond thenBody elseBody) M = some M')
    (harmless : Harmless (passedExec p (n + 1) env (.branch pos cond thenBody elseBody))) :
    Avoids (Ends M') (exec p (n + 1) env (.branch pos cond thenBody elseBody)) := by
  rw [Stmt.Complete] at complete
  rw [track] at walked
  obtain ⟨M₀, read, walked⟩ := bind_eq_some_iff.mp walked
  obtain ⟨readable, rfl⟩ := of_reading read
  obtain ⟨M₁, first, walked⟩ := bind_eq_some_iff.mp walked
  obtain ⟨M₂, second, walked⟩ := bind_eq_some_iff.mp walked
  obtain rfl : M₂.tail = M' := Option.some.inj walked
  rw [passedExec, Harmless, forall_mem_append] at harmless
  rw [exec]
  refine (at_.eval sound complete.1 readable harmless.1).before harmless.2 (fun _ => id) ?_
  rintro ⟨v, env₁⟩ ⟨-, locals, globals⟩ harmless
  have sound₁ := sound.of_locals locals globals
  cases v with
  | bool b =>
    cases b with
    | true =>
      obtain ⟨inside, behind⟩ := forall_mem_append.mp harmless
      show Avoids _ (block p n env₁ thenBody)
      revert behind
      refine (at_.block sound₁ complete.2.1 first inside).andThen (fun _ avoids _ => avoids) ?_
      rintro (env₂ | ⟨v, env₂⟩) ended behind
      · have holds := behind ⟨env₂, elseBody⟩ (mem_singleton.mpr rfl)
        show Sound env₂ M₂.tail
        rw [trackAll_tail second]
        exact Sound.assignAll ended (all_eq_true.mp holds)
      · exact ended
    | false =>
      have harmless := forall_mem_cons.mp harmless
      show Avoids _ (block p n env₁ elseBody)
      refine at_.block ?_ complete.2.2 second harmless.2
      rw [trackAll_tail first]
      exact sound₁.assignAll (all_eq_true.mp harmless.1)
  | _ => exact .error (by decide)

/-- The step for a loop, which is run again with less fuel. -/
theorem exec_loop_succ {body : List Stmt} (complete : (Stmt.loop pos cond body).Complete)
    (walked : track (.loop pos cond body) M = some M')
    (harmless : Harmless (passedExec p (n + 1) env (.loop pos cond body))) :
    Avoids (Ends M') (exec p (n + 1) env (.loop pos cond body)) := by
  have again := walked
  have whole := complete
  rw [Stmt.Complete] at complete
  rw [track] at walked
  obtain ⟨M₀, read, walked⟩ := bind_eq_some_iff.mp walked
  obtain ⟨readable, rfl⟩ := of_reading read
  obtain ⟨M₁, inner, walked⟩ := bind_eq_some_iff.mp walked
  obtain rfl : M₁.tail = M' := Option.some.inj walked
  have tail := trackAll_tail inner
  rw [passedExec, Harmless, forall_mem_append] at harmless
  rw [exec]
  refine (at_.eval sound complete.1 readable harmless.1).before harmless.2 (fun _ => id) ?_
  rintro ⟨v, env₁⟩ ⟨-, locals, globals⟩ harmless
  have sound₁ := sound.of_locals locals globals
  cases v with
  | bool b =>
    cases b with
    | true =>
      obtain ⟨inside, behind⟩ := forall_mem_append.mp harmless
      dsimp only
      revert behind
      refine (at_.block sound₁ complete.2 inner inside).andThen (fun _ avoids _ => avoids) ?_
      rintro (env₂ | ⟨v, env₂⟩) ended behind
      · rw [Ends, tail] at ended
        exact at_.exec ended.of_assignAll whole again behind
      · exact ended
    | false =>
      have holds := harmless ⟨env₁, body⟩ (mem_singleton.mpr rfl)
      show Sound env₁ M₁.tail
      rw [tail]
      exact sound₁.assignAll (all_eq_true.mp holds)
  | _ => exact .error (by decide)

/-- The step for statements, one case for each form. -/
theorem exec_succ {s : Stmt} (complete : s.Complete) (walked : track s M = some M')
    (harmless : Harmless (passedExec p (n + 1) env s)) :
    Avoids (Ends M') (exec p (n + 1) env s) := by
  cases s with
  | declare pos d =>
    rw [Stmt.Complete] at complete
    rw [passedExec] at harmless
    rw [exec]
    exact (at_.declare sound complete walked harmless).andThen (fun _ => id) fun _ sound₁ => sound₁
  | assign pos name e =>
    rw [Stmt.Complete] at complete
    rw [track] at walked
    obtain ⟨readable, rfl⟩ := of_reading walked
    rw [passedExec] at harmless
    rw [exec]
    refine (at_.eval sound complete readable harmless).andThen (fun _ => id) ?_
    rintro ⟨v, env₁⟩ ⟨held, locals, globals⟩
    show Avoids _ ((env₁.assign name v).map Outcome.done)
    cases stored : env₁.assign name v with
    | ok env₂ => exact (sound.of_locals locals globals).assign held stored
    | error f =>
      unfold Env.assign at stored
      split at stored <;> cases stored
      exact .error (by decide)
  | print pos newline e =>
    rw [Stmt.Complete] at complete
    rw [track] at walked
    obtain ⟨readable, rfl⟩ := of_reading walked
    rw [passedExec] at harmless
    rw [exec]
    refine (at_.eval sound complete readable harmless).andThen (fun _ => id) ?_
    rintro ⟨v, env₁⟩ ⟨-, locals, globals⟩
    exact sound.of_locals locals globals
  | branch pos cond thenBody elseBody => exact exec_branch_succ at_ sound complete walked harmless
  | loop pos cond body => exact exec_loop_succ at_ sound complete walked harmless
  | ret pos value =>
    cases value with
    | none =>
      rw [exec]
      exact ⟨by simp, sound.globals⟩
    | some e =>
      rw [Stmt.Complete] at complete
      rw [track] at walked
      obtain ⟨readable, rfl⟩ := of_reading walked
      rw [passedExec] at harmless
      rw [exec]
      refine (at_.eval sound (complete e rfl) readable harmless).andThen (fun _ => id) ?_
      rintro ⟨v, env₁⟩ ⟨held, -, globals⟩
      exact ⟨by simpa using held, globals⟩
  | call pos name args =>
    rw [Stmt.Complete] at complete
    rw [track] at walked
    obtain ⟨readable, rfl⟩ := of_reading walked
    rw [passedExec, Harmless, forall_mem_append] at harmless
    rw [exec]
    refine (at_.args sound complete readable harmless.1).before harmless.2 (fun _ => id) ?_
    rintro ⟨vs, env₁⟩ ⟨held, locals, globals⟩ harmless
    dsimp only
    refine (at_.call globals held harmless).andThen (fun _ => id) ?_
    rintro ⟨v, env₂⟩ ⟨-, locals', globals'⟩
    exact sound.of_locals (locals'.trans locals) globals'
  | block pos body =>
    rw [Stmt.Complete] at complete
    rw [track] at walked
    obtain ⟨M₁, inner, walked⟩ := bind_eq_some_iff.mp walked
    obtain rfl : M₁.tail = M' := Option.some.inj walked
    rw [passedExec] at harmless
    rw [exec]
    exact at_.block sound complete inner harmless

theorem block_succ (complete : AllComplete ss) (walked : trackAll ss M.enter = some M')
    (harmless : Harmless (passedBlock p (n + 1) env ss)) :
    Avoids (Ends M'.tail) (block p (n + 1) env ss) := by
  rw [passedBlock] at harmless
  rw [block]
  refine (at_.all sound.enter complete walked harmless).andThen (fun _ => id) ?_
  rintro (env₁ | ⟨v, env₁⟩) ended
  · exact Sound.leave ended
  · exact ended

theorem all_succ (complete : AllComplete ss) (walked : trackAll ss M = some M')
    (harmless : Harmless (passedAll p (n + 1) env ss)) :
    Avoids (Ends M') (execAll p (n + 1) env ss) := by
  cases ss with
  | nil =>
    rw [trackAll] at walked
    cases walked
    rw [execAll]
    exact sound
  | cons s rest =>
    rw [AllComplete] at complete
    rw [trackAll] at walked
    obtain ⟨M₁, first, others⟩ := bind_eq_some_iff.mp walked
    rw [passedAll, Harmless, forall_mem_append] at harmless
    rw [execAll]
    obtain ⟨inside, behind⟩ := harmless
    revert behind
    refine (at_.exec sound complete.1 first inside).andThen (fun _ avoids _ => avoids) ?_
    rintro (env₁ | ⟨v, env₁⟩) ended behind
    · exact at_.all ended complete.2 others behind
    · exact ended

end

theorem SoundAt.zero : SoundAt p 0 := by
  constructor <;> intros <;>
    simp only [Source.eval, evalArgs, Source.call, Source.declare, Source.exec, Source.block,
      execAll] <;> exact .error (by decide)

/-- By induction on the fuel; all parts need each other with less of it. -/
theorem SoundAt.of_tracked (tracked : Tracked p) (complete : p.Complete) (n : Nat) :
    SoundAt p n := by
  induction n with
  | zero => exact .zero
  | succ n ih =>
    exact ⟨fun h => eval_succ ih h, fun h => args_succ ih h,
      fun h => call_succ ih tracked complete h, fun h => declare_succ ih h,
      fun h => exec_succ ih h, fun h => block_succ ih h, fun h => all_succ ih h⟩

theorem avoids_declareAll (at_ : SoundAt p n) (sound : Sound env [])
    {ds : List (Position × Program.Declaration)} (complete : ∀ d ∈ ds, d.2.Complete)
    (walked : ∀ d ∈ ds, track (.declare d.1 d.2) [] = some [])
    (harmless : Harmless (passedGlobals p n env ds)) :
    Avoids (Sound · []) (declareAll p n env ds) := by
  induction ds generalizing env with
  | nil =>
    rw [declareAll]
    exact sound
  | cons d rest ih =>
    rw [forall_mem_cons] at complete walked
    rw [passedGlobals, Harmless, forall_mem_append] at harmless
    rw [declareAll]
    exact (at_.declare sound complete.1 walked.1 harmless.1).before harmless.2 (fun _ => id)
      fun _ sound₁ harmless => ih sound₁ complete.2 walked.2 harmless

/-- A run of a program that is tracked to its end. -/
theorem avoids_run (tracked : Tracked p) (complete : p.Complete) (harmless :
    Harmless (passed p n)) :
    Avoids (fun _ => True) (run p n) := by
  have at_ := SoundAt.of_tracked tracked complete n
  obtain ⟨M, walked⟩ := tracked.main
  rw [passed, Harmless, forall_mem_append] at harmless
  have start : Sound ⟨[], fun _ => none, []⟩ [] := ⟨fun _ _ h => (by cases h), .nil⟩
  rw [run]
  refine (avoids_declareAll at_ start complete.globals tracked.globals harmless.1).before harmless.2
    (fun _ => id) fun env sound harmless => ?_
  dsimp only
  refine (at_.all sound.enter complete.main walked harmless).andThen (fun _ => id) ?_
  rintro (env' | ⟨_ | v, env'⟩) -
  · trivial
  · trivial
  · exact .error (by decide)

end

end Source

namespace Compile.Walk

variable (cfg : Config) {c c' : State} {className : String} {o : Assembly.Options}
  {ds : List Diagnostic}

/-- A description passes its check, and its program is walked to the end with no error and no
warning of a read. Then no run of the program reads a variable that holds nothing, unless it passes
over a body that assigns to a variable which holds nothing by then. -/
theorem reads_assigned_of_silent {d : Draft} {r : Reporter} {p : Program}
    (accepted : (d.validate r).1 = some p) (fresh : c.Fresh className o)
    (finds : Finds (program cfg p) c ds () c') (live : c'.polls ≠ some 0)
    (sound : ∀ x ∈ ds, x.severity.isError = false) (silent : ∀ x ∈ ds, x.code ≠ .semaUninitRead)
    (n : Nat) (harmless : ∀ q ∈ Source.passed p n, q.harmless = true) :
    Source.run p n ≠ .error .unassigned := by
  have tracked := tracked_of_finds cfg fresh finds live sound silent
  have avoids := Source.avoids_run tracked (Draft.means_of_check accepted).complete harmless
  intro read
  rw [read] at avoids
  exact avoids rfl

/-- The state in which a walk begins that keeps only one finding. -/
def beginning (name : String) : State :=
  { generator := .new name {}, reporter := .bag { limit := 1 } }

/-- Adds up numbers in a loop, and assigns to a variable in both bodies of a branch. -/
def totaling : Draft where
  program := "totaling"
  main := [
    { tag := "var", name := "i", kind := "int", value := some { int := some 3 } },
    { tag := "var", name := "sum", kind := "int" },
    { tag := "assign", name := "sum", value := some { int := some 0 } },
    { tag := "while"
      cond := some { op := ">", left := some { ref := "i" }, right := some { int := some 0 } }
      body := [
        { tag := "assign"
          name := "sum"
          value := some
            { op := "+", left := some { ref := "sum" }, right := some { ref := "i" } } },
        { tag := "assign"
          name := "i"
          value := some
            { op := "-", left := some { ref := "i" }, right := some { int := some 1 } } }] },
    { tag := "var", name := "last", kind := "int" },
    { tag := "if"
      cond := some { op := ">", left := some { ref := "sum" }, right := some { int := some 5 } }
      thenBody := [{ tag := "assign", name := "last", value := some { ref := "sum" } }]
      elseBody := [{ tag := "assign", name := "last", value := some { int := some 0 } }] },
    { tag := "println", value := some { ref := "last" } }]

theorem reads_assigned_of_silent_totaling : ∃ p, (totaling.validate (.collecting 10)).1 = some p ∧
    (∃ c', Finds (program ⟨"", 15⟩ p) (beginning "totaling") [] () c' ∧ c'.polls = none) ∧
    (∀ q ∈ Source.passed p 20, q.harmless = true) ∧ (Source.passed p 20).length = 2 ∧
    (Source.run p 20).toOption.map (·.output) = some [(.int 6, true)] ∧
    Source.run p 20 ≠ .error .unassigned := by
  have computed : (totaling.validate (.collecting 10)).1.any (fun p =>
      let c' := ((program ⟨"", 15⟩ p).run (beginning "totaling")).2
      decide (c'.reporter.contents.size = 0 ∧ c'.polls = none ∧
        (∀ q ∈ Source.passed p 20, q.harmless = true) ∧ (Source.passed p 20).length = 2 ∧
        (Source.run p 20).toOption.map (·.output) = some [(.int 6, true)])) := by decide +kernel
  obtain ⟨p, accepted, computed⟩ := (Option.any_eq_true _ _).mp computed
  obtain ⟨none, polls, harmless, length, output⟩ := of_decide_eq_true computed
  obtain ⟨c', finds, same⟩ := (ensures_program ⟨"", 15⟩).honest.finds_nil rfl none
  rw [polls] at same
  refine ⟨p, accepted, ⟨c', finds, same⟩, harmless, length, output, ?_⟩
  exact reads_assigned_of_silent ⟨"", 15⟩ accepted ⟨rfl, rfl, rfl, rfl, rfl, rfl⟩ finds
    (by simp [same]) (by simp) (by simp) 20 harmless

/-- On the machine such a program comes to its end whenever a run of its source does, and on the way
there no slot is loaded that nothing was stored in. -/
theorem loads_stored_of_silent {d : Draft} {r : Reporter} {p : Program}
    (accepted : (d.validate r).1 = some p) (fresh : c.Fresh className o)
    (finds : Finds (program cfg p) c ds () c') (live : c'.polls ≠ some 0)
    (sound : ∀ x ∈ ds, x.severity.isError = false) (silent : ∀ x ∈ ds, x.code ≠ .semaUninitRead)
    (n : Nat) (harmless : ∀ q ∈ Source.passed p n, q.harmless = true) :
    ∃ k : Assembly.Class, c'.generator.lines.toList.map (·.2) = k.lines o.withDefaults ∧
      Source.Avoids (fun env => ∃ m, Source.Ended k env m ∧ ∀ m' f callers slot rest,
        Assembly.Machine.Runs k (.start k) m' → m'.frames = f :: callers →
          f.rest = .loadLocal slot :: rest → (f.locals slot).isSome) (Source.run p n) := by
  have same : behind (program cfg p) c = c'.withReporter (c.reporter.reportAll ds) :=
    congrArg Prod.snd finds.run_eq
  obtain ⟨k, resolved, lines⟩ := exists_class cfg p fresh
    (same ▸ ⟨finds.ok fresh.failed sound, live⟩)
  rw [same] at lines
  have tracked := tracked_of_finds cfg fresh finds live sound silent
  have avoids := Source.avoids_run tracked (Draft.means_of_check accepted).complete harmless
  have follows := Source.ended_of_class? resolved n
  refine ⟨k, lines, ?_⟩
  revert follows
  refine avoids.andThen (fun _ avoids _ => avoids) fun env _ follows => ?_
  obtain ⟨m, ended⟩ := follows
  exact ⟨m, ended, fun _ _ _ _ _ => ended.runs.loads_held ended.frames⟩

/-- Assigns to a variable in a body that is not run, and reads it behind that. -/
def skipping : Draft where
  program := "skipping"
  main := [
    { tag := "var", name := "x", kind := "int" },
    { tag := "if"
      cond := some { bool := some false }
      thenBody := [{ tag := "assign", name := "x", value := some { int := some 1 } }] },
    { tag := "println", value := some { ref := "x" } }]

/-- Nothing is found in a program that reads a variable which holds nothing. -/
theorem silent_walk_misses_read : ∃ p, (skipping.validate (.collecting 10)).1 = some p ∧
    (∃ c', Finds (program ⟨"", 15⟩ p) (beginning "skipping") [] () c' ∧ c'.polls = none) ∧
    Source.run p 10 = .error .unassigned := by
  have computed : (skipping.validate (.collecting 10)).1.any (fun p =>
      let c' := ((program ⟨"", 15⟩ p).run (beginning "skipping")).2
      decide (c'.reporter.contents.size = 0 ∧ c'.polls = none ∧
        (Source.run p 10).map (fun _ => ()) = .error .unassigned)) := by decide +kernel
  obtain ⟨p, accepted, computed⟩ := (Option.any_eq_true _ _).mp computed
  obtain ⟨none, polls, ended⟩ := of_decide_eq_true computed
  obtain ⟨c', finds, same⟩ := (ensures_program ⟨"", 15⟩).honest.finds_nil rfl none
  refine ⟨p, accepted, ⟨c', finds, same.trans polls⟩, ?_⟩
  cases ran : Source.run p 10 with
  | ok env =>
      rw [ran] at ended
      cases ended
  | error f =>
      rw [ran] at ended
      cases ended
      rfl

end Compile.Walk

end Jasm
