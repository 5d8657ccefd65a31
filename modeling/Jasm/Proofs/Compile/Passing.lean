import Jasm.Proofs.Compile.Asking

/-!
# Walks without errors

A walk that ends without an error and without having been cancelled was so all the way, because no
step takes back what an earlier one reported. So each of its steps did what it is there for: it
resolved names as the scopes say, wrote the code of what it resolved, and left the scopes as
resolving leaves them.

`Ensures m P` says this of a step `m`: it is honest in all of its runs, and `P` relates the two ends
of each run that ends well. Sequences are treated from their first part on, so that a walk is
followed in the order in which it happens, and ways that end in an error need no attention.
-/

namespace Jasm.Compile

open Assembly (Emit Generator)

variable {α β : Type}

/-- Nothing is wrong, and the walk goes on. -/
structure State.Clean (c : State) : Prop where
  ok : c.failed = false
  live : c.polls ≠ some 0

/-- The parts of the state of a walk that decide what is written. -/
structure Core where
  scopes : Scopes
  function : Option Signature
  generator : Generator

def State.core (c : State) : Core := ⟨c.scopes, c.function, c.generator⟩

/-- A step is honest, and `P` relates the ends of its runs that end well. -/
structure Ensures (m : Walk α) (P : State → α → State → Prop) : Prop where
  honest : Honest m
  holds : ∀ c a c', m.run c = (a, c') → c'.Clean → P c a c'

theorem Honest.clean {m : Walk α} (h : Honest m) {c c' : State} {a : α}
    (run : m.run c = (a, c')) (clean : c'.Clean) : c.Clean := by
  obtain ⟨ds, a', c₁, acts⟩ := h c
  rw [acts.run_eq] at run
  cases run
  refine ⟨?_, fun cancelled => clean.live (acts.polls cancelled)⟩
  have failed : (c.failed || ds.any (·.severity.isError)) = false := acts.failed.symm.trans clean.ok
  exact (Bool.or_eq_false_iff.mp failed).1

namespace Ensures

variable {m m' : Walk α} {k : α → Walk β} {P Q : State → α → State → Prop}
  {R : State → β → State → Prop}

theorem mono (h : Ensures m P) (weaker : ∀ c a c', P c a c' → Q c a c') : Ensures m Q :=
  ⟨h.honest, fun c a c' run clean => weaker c a c' (h.holds c a c' run clean)⟩

theorem pure {a : α} (h : ∀ c, P c a c) : Ensures (pure a) P where
  honest := .pure
  holds c a' c' run _ := by
    cases run
    exact h c

theorem bind (first : Ensures m P)
    (second : ∀ a, Ensures (k a) fun c₁ b c' => ∀ c, P c a c₁ → R c b c') :
    Ensures (m >>= k) R where
  honest := first.honest.bind fun a => (second a).honest
  holds c b c' run clean := by
    rw [StateT.run_bind] at run
    have clean₁ := (second _).honest.clean run clean
    exact (second _).holds _ b c' run clean c (first.holds c _ _ rfl clean₁)

theorem of_run (honest : Honest m) (h : ∀ c, P c (m.run c).1 (m.run c).2) : Ensures m P where
  honest := honest
  holds c a c' run _ := by
    have here := h c
    rw [run] at here
    exact here

theorem ite {p : Prop} [Decidable p] (yes : p → Ensures m P) (no : ¬ p → Ensures m' P) :
    Ensures (if p then m else m') P := by
  split
  · next h => exact yes h
  · next h => exact no h

theorem get_bind {k : State → Walk β} (blind : ∀ c r, k (c.withReporter r) = k c)
    (h : ∀ s, Ensures (k s) fun c b c' => c = s → R c b c') :
    Ensures ((MonadState.get : Walk State) >>= k) R where
  honest := .get_bind blind fun s => (h s).honest
  holds c b c' run clean := (h c).holds c b c' run clean rfl

end Ensures

namespace Walk

variable {cfg : Config} {pos : Position} {m : Walk (Option α)} {f : Scopes → Option α}
  {name : String}

/-! ## Findings and writing -/

theorem ensures_error {code : Code} {message : String} {P : State → Unit → State → Prop} :
    Ensures (error cfg code pos message) P where
  honest := honest_error cfg
  holds c u c' run clean := by
    have failed : c'.failed = true := by
      rw [show c' = ((error cfg code pos message).run c).2 by rw [run]]
      rfl
    simp [clean.ok] at failed

theorem ensures_error_pure {code : Code} {message : String} {a : α}
    {P : State → α → State → Prop} : Ensures (do error cfg code pos message; return a) P :=
  .bind (P := fun _ _ _ => False) ensures_error fun _ =>
    .pure fun _ _ h => h.elim

/-- The part `step` of the program was written. -/
def Wrote (step : Emit α) (c : State) (r : Option α) (c' : State) : Prop :=
  ∃ a g, r = some a ∧ step.Writes c.core.generator a g ∧ c'.core = { c.core with generator := g }

theorem ensures_emit {step : Emit α} : Ensures (emit cfg pos step) (Wrote step) where
  honest := honest_emit cfg
  holds c r c' run clean := by
    have ok : ((emit cfg pos step).run c).2.failed = false := by rw [run]; exact clean.ok
    obtain ⟨a, g, -, writes, run'⟩ := writes_of_emit cfg ok
    rw [run] at run'
    cases run'
    exact ⟨a, g, rfl, writes, rfl⟩

/-! ## Scopes -/

theorem ensures_enter {method : Bool} :
    Ensures (enter method) fun c _ c' =>
      c'.core = { c.core with scopes := c.core.scopes.enter method } :=
  .of_run honest_enter fun _ => rfl

theorem ensures_left :
    Ensures (leave cfg pos) fun c _ c' => ∃ s rest, c.stack.inner = s :: rest ∧
      c' = { c with
        stack := { c.stack with inner := rest }
        bases := c.bases.tail
        assigned := c.assigned.filter fun v => v.1 < rest.length + 1 } where
  honest := honest_leave cfg pos
  holds c u c' run clean := by
    rw [run_leave, State.topDepth, Stack.depth] at run
    unfold Stack.leave at run
    cases hs : c.stack.inner with
    | nil =>
      rw [hs] at run
      exact ((ensures_error (P := fun _ _ _ => False)).holds c u c' run clean).elim
    | cons s rest =>
      rw [hs] at run
      cases run
      exact ⟨s, rest, rfl, rfl⟩

theorem ensures_leave :
    Ensures (leave cfg pos) fun c _ c' =>
      c'.core = { c.core with scopes := c.core.scopes.leave } := by
  refine ensures_left.mono ?_
  rintro c _ _ ⟨s, rest, inner, rfl⟩
  simp [State.core, State.scopes, Scopes.leave, inner]

theorem ensures_inserted {s : Symbol} :
    Ensures (insert cfg pos s) fun c r c' => ∃ slot stack, r = some slot ∧
      c.scopes.insert? s = some (slot, ⟨stack, c.bases⟩) ∧ c' = { c with stack := stack } where
  honest := honest_insert cfg pos s
  holds c r c' run clean := by
    rw [run_insert] at run
    rcases hs : c.stack.insert (some s.declaration) with f | ⟨slot, stack⟩
    · rw [hs] at run
      exact ((ensures_error_pure (P := fun _ _ _ => False)).holds c r c' run clean).elim
    · rw [hs] at run
      cases run
      refine ⟨slot, stack, rfl, ?_, rfl⟩
      simp only [Scopes.insert?, show c.scopes.stack = c.stack from rfl, hs]
      rfl

theorem ensures_insert {s : Symbol} :
    Ensures (insert cfg pos s) fun c r c' => ∃ slot Γ, r = some slot ∧
      c.core.scopes.insert? s = some (slot, Γ) ∧ c'.core = { c.core with scopes := Γ } := by
  refine ensures_inserted.mono ?_
  rintro c _ _ ⟨slot, stack, rfl, inserted, rfl⟩
  exact ⟨slot, _, rfl, inserted, rfl⟩

theorem ensures_markAssigned {depth : Nat} {name : String} :
    Ensures (markAssigned depth name) fun c _ c' => c'.core = c.core :=
  .of_run honest_markAssigned fun _ => rfl

theorem ensures_allocate {length : Nat} :
    Ensures (allocate length) fun c _ c' => c'.core = c.core :=
  .of_run honest_allocate fun _ => rfl

theorem ensures_markTopAssigned :
    Ensures (markTopAssigned name) fun c _ c' => c'.core = c.core :=
  .get_bind (fun _ _ => rfl) fun _ => ensures_markAssigned.mono fun _ _ _ h _ => h

/-- A question about the scopes was answered, and nothing changed that decides what is written. -/
def Gives (resolve : Scopes → Option α) (c : State) (r : Option α) (c' : State) : Prop :=
  ∃ a, r = some a ∧ resolve c.core.scopes = some a ∧ c'.core = c.core

theorem ensures_of_asks {names : List String} (h : ∀ c, Asks m c f names) :
    Ensures m (Gives f) where
  honest c := by
    obtain ⟨ds, r, c', finds, same, -⟩ := h c
    exact ⟨ds, r, c', finds, fun _ => same.generator, fun cancelled => same.polls.trans cancelled⟩
  holds c r c' run clean := by
    obtain ⟨ds, r', c₁, finds, same, answered⟩ := h c
    rw [finds.run_eq] at run
    cases run
    cases r with
    | none =>
      have failed : c₁.failed = true := by rw [finds.failed, answered.refused rfl, Bool.or_true]
      exact absurd (failed.symm.trans clean.ok) (by decide)
    | some a =>
      refine ⟨a, rfl, answered.answer a rfl, ?_⟩
      show (⟨c₁.scopes, c₁.function, c₁.generator⟩ : Core) = _
      rw [same.scopes, same.function, same.generator]
      rfl

theorem ensures_ask {k : Option α → Walk β} {b : β} {R : State → β → State → Prop}
    (first : Ensures m (Gives f)) (quiet : k none = pure b)
    (second : ∀ a, Ensures (k (some a)) fun c₁ r c' => ∀ c, f c.core.scopes = some a →
      c₁.core = c.core → R c r c') : Ensures (m >>= k) R := by
  refine .bind first fun r => ?_
  cases r with
  | none =>
    rw [quiet]
    exact .pure (by rintro _ _ ⟨_, h, _⟩; cases h)
  | some a =>
    refine (second a).mono ?_
    rintro c₁ r c' holds c ⟨_, h, given, core⟩
    cases h
    exact holds c given core

theorem ensures_find :
    Ensures (find cfg pos name) (Gives fun Γ => Γ.stack.find? name) :=
  ensures_of_asks asks_find

theorem ensures_typeExpr {e : Program.Expr} :
    Ensures (typeExpr cfg pos e) (Gives fun Γ => Γ.type? e) :=
  ensures_of_asks (asks_typeExpr e)

theorem ensures_insertLocal {kind : Kind} :
    Ensures (insertLocal cfg pos name kind) fun c r c' => ∃ Γ, r = true ∧
      c.core.scopes.insertLocal? cfg.maxLocals name kind = some Γ ∧
      c'.core = { c.core with scopes := Γ } := by
  refine .bind ensures_insert fun slot => ?_
  cases slot with
  | none => exact .pure fun _ _ ⟨_, _, h, _⟩ => by cases h
  | some slot =>
    refine .get_bind (fun _ _ => rfl) fun s => .ite (fun fits => ?_) fun _ =>
      ensures_error_pure
    refine .pure fun c₁ hs c ⟨slot', Γ, hslot, inserted, core⟩ => ⟨Γ, rfl, ?_, core⟩
    cases hslot
    subst hs
    have hb : c₁.bases = Γ.bases := congrArg (fun core : Core => core.scopes.bases) core
    rw [hb] at fits
    simp only [Scopes.insertLocal?, inserted]
    exact if_pos (by omega)

theorem ensures_polled : Ensures poll fun c r c' => r = true ∧
    c' = { c with polls := c'.polls } where
  honest := honest_poll
  holds c r c' run clean := by
    rw [run_poll] at run
    rcases hp : c.polls with _ | _ | n
    all_goals
      rw [hp] at run
      cases run
    · exact ⟨rfl, rfl⟩
    · exact absurd hp clean.live
    · exact ⟨rfl, rfl⟩

theorem ensures_poll : Ensures poll fun c r c' => r = true ∧ c'.core = c.core :=
  ensures_polled.mono fun _ _ _ ⟨going, same⟩ => ⟨going, same ▸ rfl⟩

def spanStart (name : String) (c : State) : State :=
  { c with
    recorder := (c.recorder.start .pass name c.span).2
    span := (c.recorder.start .pass name c.span).1.id }

theorem run_inSpan (body : Walk Unit) (c : State) :
    (inSpan name body).run c = ((), { (body.run (spanStart name c)).2 with
      recorder := (body.run (spanStart name c)).2.recorder.finish
        (c.recorder.start .pass name c.span).1 ""
      span := c.span }) := rfl

theorem ensures_inSpan {body : Walk Unit} {P : State → State → Prop}
    (h : Ensures body fun c _ c' => P c c')
    (blind : ∀ {c c' r s r' s'}, P { c with recorder := r, span := s } c' →
      P c { c' with recorder := r', span := s' }) :
    Ensures (inSpan name body) fun c _ c' => P c c' where
  honest := honest_inSpan h.honest
  holds c u c' run clean := by
    rw [run_inSpan] at run
    obtain ⟨-, rfl⟩ := Prod.mk.inj run
    exact blind (h.holds (spanStart name c) _ _ rfl ⟨clean.ok, clean.live⟩)

end Walk

end Jasm.Compile
