import Jasm.Proofs.Compile.Trails
import Jasm.Proofs.Program.Reading
import Jasm.Proofs.Source.Folding

/-!
# Typing abstracts evaluation

Typing computes a static value for an expression: all of its value, or its kind alone. Here an
expression is evaluated with any values for its variables and any results of its calls, as long as
they are of the right kinds. Then the only thing that can go wrong is a division by zero, and
otherwise the static value tells the kind of the value that is found, and the value itself where it
is known. This rests on the operators: each of them does on all scalars of a kind what it does on
the value of this kind that holds nothing.
-/

namespace Jasm

open Value Program.Expr
open Program (Expr)

/-! ## Operators -/

namespace Value

/-- A scalar fits what is known of it: it is of this kind, and if the scalar is known it is this
one. -/
structure Abstracts (known v : Value) : Prop where
  isInit : v.isInit
  kind : v.kind = known.kind
  eq : known.isInit → v = known

theorem Abstracts.refl {v : Value} (h : v.isInit) : Abstracts v v := ⟨h, rfl, fun _ => rfl⟩

theorem abstracts_uninit {v : Value} {k : Kind} (h : v.isInit) (kind : v.kind = k) :
    Abstracts (.uninit k) v := ⟨h, kind, fun known => by cases known⟩

namespace Abstracts

variable {op : Operator} {a b v x y : Value}

theorem unary (ha : Abstracts a x) (h : unary op a = .ok v) :
    ∃ u, unary op x = .ok u ∧ Abstracts v u := by
  cases known : v.isInit with
  | true =>
    rw [unary_isInit h] at known
    rw [ha.eq known]
    exact ⟨v, h, .refl ((unary_isInit h).trans known)⟩
  | false =>
    obtain ⟨⟨hu, admits⟩, -, kind⟩ := unary_eq_ok h
    obtain ⟨u, given, held, result⟩ := unary_of_allows ⟨hu, ha.kind ▸ admits⟩
    refine ⟨u, given, held.trans ha.isInit, ?_, fun hv => absurd (known.symm.trans hv) (by simp)⟩
    rw [result, ha.kind, kind]

theorem binary (ha : Abstracts a x) (hb : Abstracts b y) (h : binary op a b = .ok v) :
    (∃ u, binary op x y = .ok u ∧ Abstracts v u) ∨
      ∃ f, binary op x y = .error f ∧ f.isMismatch = false := by
  cases known : v.isInit with
  | true =>
    have both := (binary_isInit h).symm.trans known
    rw [Bool.and_eq_true] at both
    rw [ha.eq both.1, hb.eq both.2]
    exact .inl ⟨v, h, .refl known⟩
  | false =>
    obtain ⟨⟨hop, kinds, admits⟩, -, -, kind⟩ := binary_eq_ok h
    have allows : Allows₂ op x y := ⟨hop, by rw [hb.kind, kinds, ha.kind], ha.kind ▸ admits⟩
    rcases binary_of_allows allows with ⟨-, u, hu, held, result⟩ | ⟨-, fault⟩
    · rw [ha.isInit, hb.isInit] at held
      refine .inl ⟨u, hu, held, ?_, fun hv => absurd (known.symm.trans hv) (by simp)⟩
      rw [result, ha.kind, kind]
    · exact .inr fault

end Abstracts

end Value

/-! ## Literals -/

theorem Literal.isInit_of_toValue {l : Literal} {v : Value} (h : l.toValue = .ok v) : v.isInit := by
  unfold Literal.toValue at h
  split at h
  all_goals (try split at h) <;> cases h
  all_goals rfl

theorem Draft.isInit_of_literal {e : Draft.Expr} {v : Value} (h : e.literal = .ok v) :
    v.isInit := by
  unfold Draft.Expr.literal at h
  split at h
  · next l _ =>
      cases hl : l.toValue with
      | ok w =>
        rw [hl] at h
        cases h
        exact Literal.isInit_of_toValue hl
      | error f =>
        rw [hl] at h
        cases h
  · split at h
    · cases h
      rfl
    · cases h
  · cases h

namespace Program

mutual

/-- Every literal of the expression holds something. -/
def Expr.Complete : Expr → Prop
  | .literal v => v.isInit
  | .ref _ => True
  | .unary _ e => e.Complete
  | .binary _ l r => l.Complete ∧ r.Complete
  | .call _ args => AreComplete args

def AreComplete : List Expr → Prop
  | [] => True
  | e :: rest => e.Complete ∧ AreComplete rest

end

def Expr.isCallFree : Expr → Bool
  | .literal _ | .ref _ => true
  | .unary _ e => e.isCallFree
  | .binary _ l r => l.isCallFree && r.isCallFree
  | .call .. => false

end Program

namespace Draft

mutual

theorem complete_of_means : {d : Expr} → (e : Program.Expr) → d.Means e → e.Complete
  | _, .literal v, .literal _ hv => by
    simpa only [Complete] using isInit_of_literal hv
  | _, .ref _, _ => by simp only [Complete]
  | _, .unary _ e, .unary _ _ _ _ _ he => by
    simpa only [Complete] using complete_of_means e he
  | _, .binary _ l r, .binary _ _ _ _ _ hl hr => by
    simpa only [Complete] using ⟨complete_of_means l hl, complete_of_means r hr⟩
  | _, .call _ args, .call _ hargs => by
    simpa only [Complete] using areComplete_of_means args hargs

theorem areComplete_of_means : {ds : List Expr} → (es : List Program.Expr) →
    List.Forall₂ Expr.Means ds es → Program.AreComplete es
  | _, [], _ => by simp only [Program.AreComplete]
  | _, e :: rest, .cons he hrest => by
    simpa only [Program.AreComplete] using ⟨complete_of_means e he, areComplete_of_means rest hrest⟩

end

end Draft

namespace Compile

open Scopes

/-- What is found while an expression is evaluated: the value of a variable and the result of a
call. Both may differ from one place in the expression to the next. -/
structure Encounter where
  value : (place : List Nat) → (name : String) → Value
  result : (place : List Nat) → (name : String) → Value

/-- All that is found holds something of the kind that was declared. -/
structure Encounter.Fits (ρ : Encounter) (Γ : Scopes) : Prop where
  value : ∀ place name depth e id v, Γ.stack.find? name = some (depth, e) →
    e.item = .variable id v → (ρ.value place name).isInit ∧ (ρ.value place name).kind = v.kind
  result : ∀ place name f k, Γ.function? name = some f → f.result? = some k →
    (ρ.result place name).isInit ∧ (ρ.result place name).kind = k

namespace Scopes

/-- The value of a constant, or what is found in a variable. -/
def read (Γ : Scopes) (ρ : Encounter) (place : List Nat) (name : String) : Value :=
  match Γ.stack.find? name with
  | some (_, ⟨_, .constant _ v, _⟩) => v
  | _ => ρ.value place name

mutual

/-- Evaluates an expression. The operands of an operator and the arguments of a call come from left
to right. -/
def evaluate (Γ : Scopes) (ρ : Encounter) (place : List Nat) :
    Expr → Except Fault Value
  | .literal v => .ok v
  | .ref name => .ok (Γ.read ρ place name)
  | .unary op e => do
    let v ← Γ.evaluate ρ (0 :: place) e
    unary op v
  | .binary op l r => do
    let a ← Γ.evaluate ρ (0 :: place) l
    let b ← Γ.evaluate ρ (1 :: place) r
    binary op a b
  | .call name args => do
    let _ ← Γ.evaluateAll ρ place 0 args
    return ρ.result place name

def evaluateAll (Γ : Scopes) (ρ : Encounter) (place : List Nat) (i : Nat) :
    List Expr → Except Fault (List Value)
  | [] => return []
  | e :: rest => do
    let v ← Γ.evaluate ρ (i :: place) e
    let vs ← Γ.evaluateAll ρ place (i + 1) rest
    return v :: vs

end

/-- Constants hold something, as `Symbol.newConstant` makes them. -/
def Constant (Γ : Scopes) : Prop := ∀ name v, Γ.ref? name = some (.constant v) → v.isInit

variable {Γ : Scopes} {ρ : Encounter}

/-- What is known of an expression fits what its evaluation gives, unless it divides by zero. -/
def Meets (t : Typed) (r : Except Fault Value) : Prop :=
  (∃ v, r = .ok v ∧ t.static.Abstracts v) ∨ ∃ f, r = .error f ∧ f.isMismatch = false

theorem meets_read (constant : Γ.Constant) (fits : ρ.Fits Γ) {name : String} {t : Typed}
    (h : Γ.ref? name = some t) {place : List Nat} : Meets t (.ok (Γ.read ρ place name)) := by
  rcases ref?_cases h with ⟨depth, form, id, v, slot, found, rfl⟩ |
    ⟨depth, form, id, v, slot, found, rfl⟩
  · refine .inl ⟨v, by simp [read, found], .refl (constant name v h)⟩
  · obtain ⟨held, kind⟩ := fits.value place name depth _ id v found rfl
    exact .inl ⟨_, by simp [read, found], abstracts_uninit held kind⟩

theorem result?_of_type? {name : String} {args : List Expr} {f : Signature}
    {ts : List Typed} (h : Γ.type? (.call name args) = some (.call f ts)) :
    f.result? = some f.ret := by
  simp only [type?] at h
  split at h
  · split at h
    · next ok =>
        cases h
        have some := ok.2
        unfold Signature.result? at some ⊢
        split at some
        · cases some
        · next nothing => rw [if_neg nothing]
    · cases h
  · cases h

mutual

theorem meets_evaluate (constant : Γ.Constant) (fits : ρ.Fits Γ) : (e : Expr) →
    e.Complete → {t : Typed} → Γ.type? e = some t → (place : List Nat) →
      Meets t (Γ.evaluate ρ place e)
  | .literal v, complete, t, h, place => by
    simp only [type?] at h
    cases h
    simp only [Expr.Complete] at complete
    rw [evaluate]
    exact .inl ⟨v, rfl, .refl complete⟩
  | .ref name, _, t, h, place => by
    rw [evaluate]
    exact meets_read constant fits (by simpa only [type?] using h)
  | .unary op e, complete, t, h, place => by
    simp only [Expr.Complete] at complete
    obtain ⟨te, v, he, hv, rfl⟩ := type?_unary h
    rw [evaluate, Meets, Typed.static_folded fun _ => rfl]
    rcases meets_evaluate constant fits e complete he (0 :: place) with ⟨x, hx, ha⟩ | ⟨f, hf, div⟩
    · rw [hx]
      exact .inl (ha.unary hv)
    · rw [hf]
      exact .inr ⟨f, rfl, div⟩
  | .binary op l r, complete, t, h, place => by
    simp only [Expr.Complete] at complete
    obtain ⟨tl, tr, v, hl, hr, hv, rfl⟩ := type?_binary h
    rw [evaluate, Meets, Typed.static_folded fun _ => rfl]
    rcases meets_evaluate constant fits l complete.1 hl (0 :: place) with
      ⟨x, hx, ha⟩ | ⟨f, hf, div⟩
    · rcases meets_evaluate constant fits r complete.2 hr (1 :: place) with
        ⟨y, hy, hb⟩ | ⟨f, hf, div⟩
      · rw [hx, hy]
        exact ha.binary hb hv
      · rw [hx, hf]
        exact .inr ⟨f, rfl, div⟩
    · rw [hf]
      exact .inr ⟨f, rfl, div⟩
  | .call name args, complete, t, h, place => by
    simp only [Expr.Complete] at complete
    obtain ⟨f, ts, hf, hts, -, -, rfl⟩ := type?_call h
    rw [evaluate]
    rcases meets_evaluateAll constant fits args complete hts place 0 with
      ⟨vs, hvs⟩ | ⟨fault, hfault, div⟩
    · obtain ⟨held, kind⟩ := fits.result place name f f.ret hf (result?_of_type? h)
      rw [hvs]
      exact .inl ⟨_, rfl, abstracts_uninit held kind⟩
    · rw [hfault]
      exact .inr ⟨fault, rfl, div⟩

theorem meets_evaluateAll (constant : Γ.Constant) (fits : ρ.Fits Γ) : (es : List Expr) →
    Program.AreComplete es → {ts : List Typed} → Γ.types? es = some ts → (place : List Nat) →
      (i : Nat) → (∃ vs, Γ.evaluateAll ρ place i es = .ok vs) ∨
        ∃ f, Γ.evaluateAll ρ place i es = .error f ∧ f.isMismatch = false
  | [], _, _, _, place, i => by
    rw [evaluateAll]
    exact .inl ⟨[], rfl⟩
  | e :: rest, complete, ts, h, place, i => by
    simp only [Program.AreComplete] at complete
    simp only [types?] at h
    split at h
    · next t others he hrest =>
        rw [evaluateAll]
        rcases meets_evaluate constant fits e complete.1 he (i :: place) with
          ⟨v, hv, -⟩ | ⟨f, hf, div⟩
        · rcases meets_evaluateAll constant fits rest complete.2 hrest place (i + 1) with
            ⟨vs, hvs⟩ | ⟨f, hf, div⟩
          · rw [hv, hvs]
            exact .inl ⟨v :: vs, rfl⟩
          · rw [hv, hf]
            exact .inr ⟨f, rfl, div⟩
        · rw [hf]
          exact .inr ⟨f, rfl, div⟩
    · cases h

end

theorem isStorable_of_unknown (constant : Γ.Constant) : (e : Expr) → e.Complete →
    (∀ name ∈ e.names, ∀ kind l, Γ.ref? name = some (.variable name kind l) →
      Assembly.isStorable kind) →
    e.isCallFree ∨ (∀ name f, Γ.function? name = some f → f.isStorable) → {t : Typed} →
    Γ.type? e = some t → t.static.isInit = false → Assembly.isStorable t.kind
  | .literal v, complete, _, _, t, h, unknown => by
    simp only [type?] at h
    cases h
    simp only [Expr.Complete] at complete
    exact absurd (complete.symm.trans unknown) (by simp)
  | .ref name, _, stored, _, t, h, unknown => by
    simp only [type?] at h
    rcases ref?_cases h with
      ⟨depth, form, id, v, slot, found, rfl⟩ | ⟨depth, form, id, v, slot, found, rfl⟩
    · exact absurd ((constant name v h).symm.trans unknown) (by simp)
    · exact stored name (by simp [Expr.names]) _ _ h
  | .unary op e, complete, stored, calls, t, h, unknown => by
    simp only [Expr.Complete] at complete
    simp only [Expr.names] at stored
    simp only [Expr.isCallFree] at calls
    obtain ⟨te, v, he, hv, rfl⟩ := type?_unary h
    rw [Typed.static_folded fun _ => rfl] at unknown
    obtain ⟨⟨hu, -⟩, hi, kind⟩ := unary_eq_ok hv
    have result : op.resultKind te.static.kind = te.static.kind := by cases op <;> cases hu <;> rfl
    rw [Typed.kind, Typed.static_folded fun _ => rfl, kind, result]
    exact isStorable_of_unknown constant e complete stored calls he (hi ▸ unknown)
  | .binary op l r, complete, stored, calls, t, h, unknown => by
    simp only [Expr.Complete] at complete
    simp only [Expr.names, List.forall_mem_append] at stored
    simp only [Expr.isCallFree, Bool.and_eq_true, and_or_right] at calls
    obtain ⟨tl, tr, v, hl, hr, hv, rfl⟩ := type?_binary h
    rw [Typed.static_folded fun _ => rfl] at unknown
    obtain ⟨⟨-, kinds, -⟩, -, -, kind⟩ := binary_eq_ok hv
    have operand : Assembly.isStorable tl.static.kind := by
      rcases binary_uninit hv unknown with hi | hi
      · exact isStorable_of_unknown constant l complete.1 stored.1 calls.1 hl hi
      · exact kinds ▸ isStorable_of_unknown constant r complete.2 stored.2 calls.2 hr hi
    rw [Typed.kind, Typed.static_folded fun _ => rfl, kind]
    unfold Operator.resultKind
    split
    · rfl
    · exact operand
  | .call name args, _, _, calls, t, h, unknown => by
    obtain ⟨f, ts, hf, hts, -, -, rfl⟩ := type?_call h
    have function := calls.resolve_left (by simp [Expr.isCallFree]) name f hf
    exact (Signature.isStorable_iff.mp function).2 _ (result?_of_type? h)

theorem Storable.isStorable (storable : Γ.Storable) (e : Expr) (complete : e.Complete)
    {t : Typed} (h : Γ.type? e = some t) (unknown : t.static.isInit = false) :
    Assembly.isStorable t.kind := by
  refine isStorable_of_unknown (fun name v ref => ?_) e complete (fun name _ kind l ref => ?_)
    (.inr fun name f function => ?_) h unknown
  case refine_3 =>
    obtain ⟨depth, form, slot, found⟩ := function?_eq_some function
    exact storable.find? found
  all_goals
    rcases ref?_cases ref with ⟨depth, form, id, v, slot, found, heq⟩ |
      ⟨depth, form, id, v, slot, found, heq⟩ <;> cases heq
    exact storable.find? found

end Scopes

/-! ## Typing in a walk -/

namespace Walk

open Assembly

variable (cfg : Config) (pos : Position)

variable {α : Type} {c c₁ : State}

theorem type?_of_typeExpr {e : Expr} {t : Typed}
    (typed : ((typeExpr cfg pos e).run c).1 = some t) : c.scopes.type? e = some t := by
  obtain ⟨ds, r, c', finds, -, answered⟩ := asks_typeExpr e c
  rw [finds.run_eq] at typed
  exact answered.answer t typed

/-- An expression is typed. Whatever its variables hold and its calls return, its evaluation gives a
scalar of the static kind, and the static value itself if this is known, or it divides by zero. And
what is not known, where no error was reported so far, is a whole number or a truth value. -/
theorem static_abstracts_evaluation {e : Expr} {t : Typed} (complete : e.Complete)
    (typed : ((typeExpr cfg pos e).run c).1 = some t) :
    (c.scopes.Constant → ∀ ρ : Encounter, ρ.Fits c.scopes →
      (∃ op n, c.scopes.evaluate ρ [] e = .error (.divisionByZero op n)) ∨
      ∃ v, c.scopes.evaluate ρ [] e = .ok v ∧ v.isInit ∧ v.kind = t.static.kind ∧
        (t.static.isInit → v = t.static)) ∧
    (∀ (p : Program) (start : State) (className : String) (o : Assembly.Options),
      start.Fresh className o → ∀ x ∈ start :: programTrail cfg p start, x.AtCode →
      x.failed = false → c.scopes = x.scopes → t.static.isInit = false →
        t.static.kind = .integer ∨ t.static.kind = .boolean) := by
  have type := type?_of_typeExpr cfg pos typed
  constructor
  · intro constant ρ fits
    rcases Scopes.meets_evaluate constant fits e complete type [] with
      ⟨v, hv, abstracts⟩ | ⟨f, hf, division⟩
    · exact .inr ⟨v, hv, abstracts.isInit, abstracts.kind, abstracts.eq⟩
    · cases f with
      | divisionByZero op n => exact .inl ⟨op, n, hf⟩
      | _ => cases division
  · intro p start className o fresh x hx code fine scopes unknown
    have storable := storable_of_programTrail cfg p fresh x hx code fine
    have kind := Scopes.Storable.isStorable (scopes ▸ storable) e complete type unknown
    unfold Typed.kind at kind
    generalize t.static.kind = k at kind
    cases k <;> simp [Assembly.isStorable] at kind ⊢

def quotient : Draft.Expr where
  op := "/"
  left := some { int := some 10 }
  right := some { ref := "n" }

def globalN : Program where
  name := "quotient"
  globals := [({}, .variable "n" .integer none)]
  functions := []
  main := []
  mainPos := {}

def holdingN (cfg : Config) : State :=
  behind (declare cfg {} (.variable "n" .integer none)) (behind (emit cfg {} Emit.programStart)
    { generator := .new "quotient" {}, reporter := .collecting 10 })

theorem item_of_holdingN {name : String} {depth : Nat} {e : Entry Symbol}
    (h : (holdingN ⟨"", 3⟩).stack.find? name = some (depth, e)) :
    e.item = .newVariable "n" .integer := by
  have declared : (holdingN ⟨"", 3⟩).stack.global =
      ({} : Scope Symbol).push (Symbol.newVariable "n" .integer).declaration (some 0) := rfl
  obtain ⟨e', found, same⟩ := Option.map_eq_some_iff.mp
    (show ((holdingN ⟨"", 3⟩).stack.global.get? name).map (0, ·) = some (depth, e) from h)
  cases same
  rw [declared, Scope.get?_push] at found
  split at found
  · cases found
    rfl
  · simp [Scope.get?] at found

theorem constant_holdingN : (holdingN ⟨"", 3⟩).scopes.Constant := by
  intro name v h
  rcases ref?_cases h with ⟨depth, form, id, v', slot, found, -⟩ |
    ⟨depth, form, id, v', slot, found, same⟩
  · cases item_of_holdingN found
  · cases same

/-- Whether the division succeeds depends on what `n` holds, and its kind does not. -/
theorem static_abstracts_evaluation_quotient :
    let cfg : Config := ⟨"", 3⟩
    let e : Expr := .binary .div (.literal (.int 10)) (.ref "n")
    let Γ := (holdingN cfg).scopes
    let found (n : Int32) : Encounter := ⟨fun _ _ => .int n, fun _ _ => .int 0⟩
    (Draft.checkExpr {} quotient).result = some e ∧
      ((typeExpr cfg {} e).run (holdingN cfg)).1 = some
        (.binary .div .integer (.constant (.int 10)) (.variable "n" .integer .global)) ∧
      (∀ n, (found n).Fits Γ ∧
        ((∃ op m, Γ.evaluate (found n) [] e = .error (.divisionByZero op m)) ∨
          ∃ v, Γ.evaluate (found n) [] e = .ok v ∧ v.isInit ∧ v.kind = .integer)) ∧
      holdingN cfg ∈ programTrail cfg globalN
        { generator := .new "quotient" {}, reporter := .collecting 10 } ∧
      (holdingN cfg).AtCode ∧ (holdingN cfg).failed = false ∧
      (Kind.integer = .integer ∨ Kind.integer = .boolean) := by
  intro cfg e Γ found
  have check : (Draft.checkExpr {} quotient).result = some e := by rfl
  have complete := Draft.complete_of_means e (Draft.means_of_checkExpr quotient check)
  obtain ⟨abstracts, kinds⟩ := static_abstracts_evaluation cfg {} (c := holdingN cfg) complete rfl
  have fits (n : Int32) : (found n).Fits Γ := by
    refine ⟨fun place name depth e id v h item => ⟨rfl, ?_⟩, fun place name f k h => ?_⟩
    · cases item.symm.trans (item_of_holdingN h)
      rfl
    · unfold Scopes.function? at h
      split at h
      · next depth e he =>
          rw [item_of_holdingN he] at h
          cases h
      · cases h
  have code : (holdingN cfg).AtCode := by
    refine .inr fun name => ?_
    unfold Scopes.function?
    split
    · next depth e he => rw [item_of_holdingN he]; rfl
    · rfl
  have member : holdingN cfg ∈ programTrail cfg globalN
      { generator := .new "quotient" {}, reporter := .collecting 10 } := by
    simp [programTrail, globalsTrail, globalN, holdingN]
  refine ⟨check, rfl, fun n => ⟨fits n, ?_⟩, member, code, rfl, ?_⟩
  · rcases abstracts constant_holdingN (found n) (fits n) with division | ⟨v, hv, held, kind, -⟩
    · exact .inl division
    · exact .inr ⟨v, hv, held, kind⟩
  · exact kinds globalN _ "quotient" {} ⟨rfl, rfl, rfl, rfl, rfl, rfl⟩ _
      (List.mem_cons_of_mem _ member) code rfl rfl rfl

end Walk

end Compile

end Jasm
