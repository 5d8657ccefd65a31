import Jasm.Proofs.Source.Folding

/-!
# Values on the operand stack

How a machine holds a value, and what its instructions for constants and operators do with values
held in this way. Integers and characters are held as they are, truth values as one and zero, texts
in their normal form. An operator gives the value of the operator on values, apart from divisions by
zero and from comparisons of numbers whose difference is too large.
-/

namespace Jasm

open Assembly Value

namespace Value

variable {v : Value} {n : Int32} {o : Operand}

/-- What stands for a value on an operand stack. -/
def operand? : Value → Option Operand
  | .int n => some (.int n)
  | .bool b => some (.ofBool b)
  | .char code => some (.int code)
  | .str s => some (.string (Text.normalForm s))
  | .uninit _ | .float _ => none

/-- What is seen of a printed value: texts are equal if their normal forms are. -/
def shown : Value → Value
  | .str s => .str (Text.normalForm s)
  | v => v

theorem operand?_of_intImage? (h : v.intImage? = some n) :
    v.operand? = some (.int n) := by
  cases v <;> cases h <;> rfl

theorem exists_intImage? (storable : isStorable v.kind) (h : v.operand? = some o) :
    ∃ n, v.intImage? = some n ∧ o = .int n := by
  cases v <;> cases h
  case int n => exact ⟨n, rfl, rfl⟩
  case bool b => exact ⟨_, rfl, rfl⟩
  all_goals cases storable

theorem isInit_of_intImage? (h : v.intImage? = some n) : v.isInit := by
  cases v <;> cases h <;> rfl

theorem value?_of_operand? {what : Printed} (hw : Printed.ofKind? v.kind = some what)
    (h : v.operand? = some o) :
    what.value? o = some v.shown := by
  cases v <;> cases h <;> cases hw
  case bool b => cases b <;> rfl
  all_goals rfl

end Value

namespace Source

open Compile (binaryCode)
open Machine (Runs)

/-! ## Code that works on the stack -/

/-- What all frames share: the fields, and what was printed. -/
abbrev Shared := (String → Option Int32) × List (Value × Bool)

/-- Wherever some code stands in a method with the variables `ml`, it turns the operands `taken` on
top of the stack into the operands `given`. -/
def Turns (k : Assembly.Class) (ml : Nat → Option Int32) (code : List Instruction) (s s' : Shared)
    (taken given : List Operand) : Prop :=
  ∀ (f : Frame) (fs : List Frame) (rest : List Instruction) (stack : List Operand),
    f.locals = ml → f.EndsWith (code ++ rest) →
      Runs k ⟨f.set (code ++ rest) (taken ++ stack) :: fs, s.1, s.2⟩
        ⟨f.set rest (given ++ stack) :: fs, s'.1, s'.2⟩

variable {k : Assembly.Class} {ml : Nat → Option Int32} {s s₁ s₂ : Shared} {v : Value}
  {op : Operator} {stem : String} {a b : Int32}

namespace Turns

variable {code code' : List Instruction} {a b c : List Operand}

theorem nil : Turns k ml [] s s a a := by
  intro f fs rest stack _ _
  exact .refl

theorem append (first : Turns k ml code s s₁ a b) (second : Turns k ml code' s₁ s₂ b c) :
    Turns k ml (code ++ code') s s₂ a c := by
  intro f fs rest stack hl ends
  rw [List.append_assoc] at ends ⊢
  exact (first f fs _ stack hl ends).trans (second f fs rest stack hl ends.right)

theorem above (h : Turns k ml code s s₁ a b) (c : List Operand) :
    Turns k ml code s s₁ (a ++ c) (b ++ c) := by
  intro f fs rest stack hl ends
  have run := h f fs rest (c ++ stack) hl ends
  rwa [← List.append_assoc, ← List.append_assoc] at run

theorem one {i : Instruction}
    (h : ∀ (f : Frame) (fs : List Frame) (rest : List Instruction) (stack : List Operand),
      f.locals = ml → (Machine.step k ⟨f.set (i :: rest) (a ++ stack) :: fs, s.1, s.2⟩) =
        some ⟨f.set rest (b ++ stack) :: fs, s₁.1, s₁.2⟩) : Turns k ml [i] s s₁ a b := by
  intro f fs rest stack hl _
  exact .one (h f fs rest stack hl)

end Turns

theorem turns_constant {i : Instruction} (h : Emit.constant? v = some i) :
    ∃ o, v.operand? = some o ∧ Turns k ml [i] s s [] [o] := by
  have number (n : Int32) : Turns k ml [Emit.pushNumber n] s s [] [.int n] := by
    unfold Emit.pushNumber
    split <;> exact .one fun _ _ _ _ _ => rfl
  cases v <;> cases h
  case int n => exact ⟨_, rfl, number n⟩
  case char code => exact ⟨_, rfl, number code⟩
  case str s => exact ⟨_, rfl, .one fun _ _ _ _ _ => rfl⟩
  case bool b => exact ⟨_, rfl, .one fun _ _ _ _ _ => rfl⟩

theorem turns_unary {o : Operand} (h : v.operand? = some o)
    (hop : op = .neg ∧ v.kind = .integer ∨ op = .not ∧ v.kind = .boolean) :
    ∃ w o', unary op v = .ok w ∧ w.kind = v.kind ∧ w.operand? = some o' ∧
      ∀ k ml s, Turns k ml ((Emit.operationCode? op).getD []) s s [o] [o'] := by
  rcases hop with ⟨rfl, hk⟩ | ⟨rfl, hk⟩
  · cases v <;> cases h <;> cases hk
    next n =>
      refine ⟨.int (-n), .int (-n), rfl, rfl, rfl, fun k ml s => ?_⟩
      exact .one fun _ _ _ _ _ => rfl
  · cases v <;> cases h <;> cases hk
    next b =>
      refine ⟨.bool !b, .ofBool !b, rfl, rfl, rfl, fun k ml s => ?_⟩
      intro f fs rest stack _ _
      apply Runs.cons rfl
      apply Runs.one
      cases b <;> rfl

/-! ## Operators of two operands -/

theorem compareInt_ofBool (a b : Bool) :
    compareInt (if a then 1 else 0) (if b then 1 else 0) = compareBool a b := by
  cases a <;> cases b <;> rfl

theorem differenceFits_ofBool (a b : Bool) :
    DifferenceFits (if a then 1 else 0) (if b then 1 else 0) := by
  cases a <;> cases b <;> decide

theorem isBinary_cases (h : op.isBinary) (hr : op.isRelational = false) :
    op = .add ∨ op = .sub ∨ op = .mul ∨ op = .div ∨ op = .rem ∨ op = .and ∨ op = .or := by
  cases op <;> simp_all [Operator.isBinary, Operator.isArithmetic, Operator.isRelational,
    Operator.isLogical]

theorem turns_comparison {n : Nat} {o : Ordering} (hop : op.isRelational)
    (order : compareInt a b = o) (fits : op = .eq ∨ op = .notEq ∨ DifferenceFits a b) :
    Turns k ml (binaryCode stem op n).1 s s [.int b, .int a]
      [.ofBool (decideOrder op o)] := by
  obtain ⟨c, hc⟩ := Cond.exists_ofOperator? hop
  have code : (binaryCode stem op n).1 =
      Emit.relationCode c (labelOf stem n) (labelOf stem (n + 1)) := by
    simp only [binaryCode, hop, if_true, hc]
  rw [code, ← order, ← (Cond.holds_sub_iff hop hc).mpr fits]
  intro f fs rest stack _ ends
  exact runs_relation ends.nodup ends.suffix

/-- What the code of an operator of two operands does with what stands for them. It fails only by
dividing by zero. -/
def BinaryTurns (stem : String) (op : Operator) (l r : Value) (ol or : Operand) : Prop :=
  match binary op l r with
  | .ok w => w.kind = op.resultKind l.kind ∧ ∃ o, w.operand? = some o ∧
      ∀ k ml s n, Turns k ml (binaryCode stem op n).1 s s [or, ol] [o]
  | .error fault => fault.isMismatch = false

theorem turns_division {op : StackOp} {c : Int32} (h : op.apply a b = some c)
    (hop : op = .div ∨ op = .rem) : Turns k ml [.op op] s s [.int b, .int a] [.int c] := by
  apply Turns.one
  intro f fs rest stack _
  rcases hop with rfl | rfl
  · show (StackOp.div.apply a b).map _ = _
    rw [h]
    rfl
  · show (StackOp.rem.apply a b).map _ = _
    rw [h]
    rfl

theorem binaryTurns_int (hb : op.isBinary) (ha : op.admits .integer)
    (fits : comparable op (.int a) (.int b)) :
    BinaryTurns stem op (.int a) (.int b) (.int a) (.int b) := by
  cases hr : op.isRelational with
  | true =>
    rw [BinaryTurns, binary_int hr]
    refine ⟨by simp [Operator.resultKind, hr, kind], _, rfl, fun k ml s n => ?_⟩
    apply turns_comparison hr rfl
    simpa [comparable, hr, or_assoc] using fits
  | false =>
    rcases isBinary_cases hb hr with rfl | rfl | rfl | rfl | rfl | rfl | rfl
    iterate 3 exact ⟨rfl, _, rfl, fun k ml s n => .one fun _ _ _ _ _ => rfl⟩
    · by_cases hz : b = 0
      · subst hz
        rfl
      · have divided : binary .div (.int a) (.int b) = .ok (.int (a / b)) := if_neg hz
        rw [BinaryTurns, divided]
        exact ⟨rfl, _, rfl, fun k ml s n => turns_division (if_neg hz) (.inl rfl)⟩
    · by_cases hz : b = 0
      · subst hz
        rfl
      · have divided : binary .rem (.int a) (.int b) = .ok (.int (a % b)) := if_neg hz
        rw [BinaryTurns, divided]
        exact ⟨rfl, _, rfl, fun k ml s n => turns_division (if_neg hz) (.inr rfl)⟩
    all_goals cases ha

theorem binaryTurns_bool {a b : Bool} (hb : op.isBinary) (ha : op.admits .boolean) :
    BinaryTurns stem op (.bool a) (.bool b) (.ofBool a) (.ofBool b) := by
  cases hr : op.isRelational with
  | true =>
    have compared : binary op (.bool a) (.bool b) =
        .ok (.bool (decideOrder op (compareBool a b))) := by
      cases op <;> cases hr <;> rfl
    rw [BinaryTurns, compared]
    refine ⟨by simp [Operator.resultKind, hr, kind], _, rfl, fun k ml s n => ?_⟩
    exact turns_comparison hr (compareInt_ofBool a b) (.inr (.inr (differenceFits_ofBool a b)))
  | false =>
    cases op <;> cases hb <;> cases hr <;> cases ha
    all_goals
      refine ⟨rfl, _, rfl, fun k ml s n => .one fun _ _ _ _ _ => ?_⟩
      cases a <;> cases b <;> rfl

theorem binaryTurns (stem : String) {l r : Value} {ol or : Operand} (hl : l.operand? = some ol)
    (hr : r.operand? = some or) (storable : isStorable l.kind) (hk : r.kind = l.kind)
    (hb : op.isBinary) (ha : op.admits l.kind) (fits : comparable op l r) :
    BinaryTurns stem op l r ol or := by
  cases l <;> cases hl
  case int a =>
    cases r <;> cases hr <;> cases hk
    exact binaryTurns_int hb ha fits
  case bool a =>
    cases r <;> cases hr <;> cases hk
    exact binaryTurns_bool hb ha
  all_goals cases storable

end Source

end Jasm
