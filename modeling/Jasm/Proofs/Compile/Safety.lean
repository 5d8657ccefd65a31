import Jasm.Proofs.Compile.Passing

/-!
# Steps that stay in order

Some findings would not be about the program but about the compiler: a label used against the rules,
a part written out of turn, a scope closed that was never opened. `Safe m c Q` says that the step
`m`, started from the state `c`, reports nothing of this sort, and that `Q` holds of what it gives
and of the state behind it. In contrast to `Ensures` nothing is assumed of how the step ends: other
errors may be found, and the walk may be cancelled.
-/

namespace Jasm

open Program (Expr)

namespace Compile

open Typed Scopes

variable {α β : Type}

/-- From `c` the step `m` reports nothing internal, and `Q` holds at its end. -/
def Safe (m : Walk α) (c : State) (Q : α → State → Prop) : Prop :=
  ∃ ds a c', Finds m c ds a c' ∧ (∀ d ∈ ds, d.code.isInternal = false) ∧ Q a c'

namespace Safe

variable {m m' : Walk α} {k : α → Walk β} {c : State} {Q Q' : α → State → Prop}
  {R : β → State → Prop}

theorem run (h : Safe m c Q) : ∃ a c', m.run c = (a, c') ∧ ∃ c₁ r, c' = c₁.withReporter r ∧
    Q a c₁ := by
  obtain ⟨ds, a, c₁, finds, -, q⟩ := h
  exact ⟨a, _, finds.run_eq, c₁, _, rfl, q⟩

end Safe

/-- A variable that can be seen lives here. -/
def State.Locates (c : State) (l : Location) : Prop :=
  ∃ name depth e id v, c.stack.find? name = some (depth, e) ∧ e.item = .variable id v ∧
    l = c.location depth e

namespace State.Same

theorem locates {c c₁ : State} (h : Same c c₁) : c₁.Locates = c.Locates := by
  unfold Locates State.location State.base
  rw [h.stack, h.bases]

end State.Same

/-! ## Variables and calls in resolved expressions -/

mutual

/-- All variables in an expression live where they can, and all calls have as many arguments as
their functions have parameters. -/
def Typed.Fits (L : Location → Prop) : Typed → Prop
  | .constant _ => True
  | .variable _ _ l => L l
  | .unary _ _ e => e.Fits L
  | .binary _ _ l r => l.Fits L ∧ r.Fits L
  | .call f args => args.length = f.arity ∧ FitAll L args

def FitAll (L : Location → Prop) : List Typed → Prop
  | [] => True
  | t :: rest => t.Fits L ∧ FitAll L rest

end

theorem Typed.fits_folded {L : Location → Prop} {v : Value} {unfolded : Kind → Typed}
    (h : ∀ k, (unfolded k).Fits L) : (folded v unfolded).Fits L := by
  unfold folded
  split
  · simp only [Fits]
  · exact h _

namespace Walk

variable {cfg : Config} {pos : Position} {code : Code} {message : String} {name : String}

/-! ## Findings -/

/-- A question was asked: the state is the same, and the answer, if there is one, fulfils `P`. -/
def Asked (c : State) (P : α → Prop) (r : Option α) (c' : State) : Prop :=
  c.Same c' ∧ ∀ a ∈ r, P a

variable {c : State}

/-! ## Names and expressions -/

theorem safe_of_asks {m : Walk (Option α)} {f : Scopes → Option α} {names : List String}
    {P : α → Prop} (h : Asks m c f names) (answers : ∀ a, f c.scopes = some a → P a) :
    Safe m c (Asked c P) := by
  obtain ⟨ds, r, c', finds, same, answered⟩ := h
  exact ⟨ds, r, c', finds, answered.codes, same, fun a ha => answers a (answered.answer a ha)⟩

mutual

theorem fits_of_type? : (e : Expr) → {t : Typed} → c.scopes.type? e = some t →
    t.Fits c.Locates
  | .literal v, t, type => by
    rw [type?] at type
    cases type
    simp only [Fits]
  | .ref name, t, type => by
    rw [type?] at type
    rcases ref?_cases type with
      ⟨depth, form, id, v, slot, found, rfl⟩ | ⟨depth, form, id, v, slot, found, rfl⟩
    · simp only [Fits]
    · simp only [Fits]
      exact ⟨name, depth, _, id, v, found, rfl, rfl⟩
  | .unary op e, t, type => by
    obtain ⟨te, v, he, -, rfl⟩ := type?_unary type
    refine fits_folded fun k => ?_
    simpa only [Fits] using fits_of_type? e he
  | .binary op l r, t, type => by
    obtain ⟨tl, tr, v, hl, hr, -, rfl⟩ := type?_binary type
    refine fits_folded fun k => ?_
    simpa only [Fits] using ⟨fits_of_type? l hl, fits_of_type? r hr⟩
  | .call name args, t, type => by
    obtain ⟨f, ts, -, hts, kinds, -, rfl⟩ := type?_call type
    simp only [Fits]
    exact ⟨by simpa [Signature.arity] using congrArg List.length kinds, fitAll_of_types? args hts⟩

theorem fitAll_of_types? : (args : List Expr) → {ts : List Typed} →
    c.scopes.types? args = some ts → FitAll c.Locates ts
  | [], ts, types => by
    rw [types?] at types
    cases types
    simp only [FitAll]
  | e :: rest, ts, types => by
    obtain ⟨t, ts', ht, hts, rfl⟩ := types?_cons types
    simpa only [FitAll] using ⟨fits_of_type? e ht, fitAll_of_types? rest hts⟩

end

theorem safe_find :
    Safe (find cfg pos name) c (Asked c fun found => c.stack.find? name = some found) :=
  safe_of_asks (asks_find c) fun _ h => h

theorem safe_typeExpr (e : Expr) (c : State) :
    Safe (typeExpr cfg pos e) c (Asked c (Fits c.Locates)) :=
  safe_of_asks (asks_typeExpr e c) fun _ => fits_of_type? e

theorem safe_typeCall (args : List Expr) :
    Safe (typeCall cfg pos name args) c
      (Asked c fun call => call.2.length = call.1.arity ∧ FitAll c.Locates call.2) := by
  refine safe_of_asks (asks_typeCall c) fun call passed => ?_
  obtain ⟨-, types, kinds⟩ := passed?_eq_some passed
  exact ⟨by simpa [Signature.arity] using congrArg List.length kinds, fitAll_of_types? args types⟩

theorem safe_typeInit {kind : Kind} {init : Option Expr} :
    Safe (typeInit cfg pos name kind init) c
      (Asked c fun typed => ∀ t ∈ typed, t.Fits c.Locates) := by
  refine safe_of_asks (asks_typeInit c) fun typed given t ht => ?_
  cases init with
  | none =>
    cases given
    cases ht
  | some e =>
    obtain ⟨t', ht', rfl⟩ := Option.map_eq_some_iff.mp given
    cases ht
    exact fits_of_type? e (Option.filter_eq_some_iff.mp ht').1

theorem safe_findTarget :
    Safe (findTarget cfg pos name) c (Asked c fun _ => ∃ depth e id v,
      c.stack.find? name = some (depth, e) ∧ e.item = .variable id v) := by
  refine safe_of_asks (asks_findTarget c) fun _ resolved => ?_
  obtain ⟨depth, form, id, v, slot, found, -⟩ := target?_eq_some resolved
  exact ⟨depth, _, id, v, found, rfl⟩

end Walk

end Compile

end Jasm
