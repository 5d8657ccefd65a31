import Jasm.Proofs.Value.Operators
import Jasm.Value.Cell

/-!
# What cells hold

Every cell that the program can build is the cell of a value, so what it holds is of the type that
its kind names. On such cells no assertion of an operator fails, and operators do what they do on
values.
-/

namespace Jasm.Cell

open Value (Fault resultKind)

variable {op : Operator} {l r c : Cell} {f : Fault}

/-- The kind that names the type of a scalar. -/
def typeOf : Payload → Kind
  | .int _ => .integer
  | .float _ => .float
  | .char _ => .char
  | .str _ => .string
  | .bool _ => .boolean

@[simp] theorem kind_of (v : Value) : (of v).kind = v.kind := by cases v <;> rfl

@[simp] theorem isSome_data_of (v : Value) : (of v).data.isSome = v.isInit := by cases v <;> rfl

theorem typeOf_of_mem {v : Value} {p : Payload} (h : p ∈ (of v).data) : typeOf p = v.kind := by
  cases v <;> cases h <;> rfl

/-! ## Operators on the cells of values -/

theorem resultKind_eq_ite (known : op.isBinary || op.isUnary) (k : Kind) :
    resultKind op k = if op.admits k then .ok (op.resultKind k) else .error (.undefined op k) := by
  simp [resultKind, known]

theorem unary_of (op : Operator) (v : Value) : unary op (of v) = (v.unary op).map of := by
  unfold unary Value.unary
  by_cases hop : op.isUnary
  · rw [kind_of, resultKind_eq_ite (by simp [hop])]
    by_cases admits : op.admits v.kind
    · simp only [hop, admits, Bool.not_true, Bool.false_eq_true, if_false, if_true]
      -- no unary operator is defined on characters and texts
      cases v with
      | char n => cases op <;> cases hop <;> cases admits
      | str s => cases op <;> cases hop <;> cases admits
      | _ => rfl
    · simp [hop, admits, Except.map]
  · simp [hop, Except.map]

/-- Where both operands hold scalars of one kind that the operator is defined on. -/
theorem relation_float (x y : Float32) :
    relation op (.float x) (.float y) =
      some ((Value.relation op (.float x) (.float y)).map of) := by
  unfold relation Value.relation
  dsimp only
  by_cases nan : (x.isNaN || y.isNaN) = true
  · rw [if_pos nan, if_pos nan]
    rfl
  · rw [if_neg nan, if_neg nan]
    rfl

theorem apply_of {a b : Value} (hop : op.isBinary) (admits : op.admits a.kind)
    (kinds : a.kind = b.kind) (held : a.isInit) (held' : b.isInit) :
    ∃ x y, (of a).data = some x ∧ (of b).data = some y ∧
      (if op.isArithmetic then arith op a.kind x y
        else if op.isRelational then relation op x y
        else if op = .and then some (.ok (bool (truth x && truth y)))
        else some (.ok (bool (truth x || truth y)))) =
          some ((Value.applyBinary op a b).map of) := by
  cases a <;> cases held <;> cases b <;> cases held' <;> cases kinds <;>
    refine ⟨_, _, rfl, rfl, ?_⟩
  case float.refl.float.refl.refl x y =>
    cases op <;> cases hop <;> cases admits <;> first | rfl | exact relation_float x y
  all_goals cases op <;> cases hop <;> cases admits <;> rfl

theorem binary_of (op : Operator) (a b : Value) :
    binary op (of a) (of b) = some ((Value.binary op a b).map of) := by
  unfold binary Value.binary
  by_cases hop : op.isBinary
  · by_cases kinds : a.kind = b.kind
    · rw [kind_of, kind_of, resultKind_eq_ite (by simp [hop])]
      by_cases admits : op.admits a.kind
      · simp only [hop, kinds, kinds ▸ admits, Bool.not_true, Bool.false_eq_true, ne_eq,
          not_true_eq_false, if_false, if_true]
        cases held : a.isInit && b.isInit with
        | false => cases a <;> cases b <;> first | rfl | cases held
        | true =>
          obtain ⟨known, known'⟩ := Bool.and_eq_true_iff.mp held
          obtain ⟨x, y, left, right, applied⟩ := apply_of hop admits kinds known known'
          rw [left, right]
          exact kinds ▸ applied
      · simp [hop, kinds, kinds ▸ admits, Except.map]
    · simp [hop, kinds, Except.map]
  · simp [hop, Except.map]

/-! ## Cells that can be built -/

/-- The cells that the program can build. -/
inductive Built : Cell → Prop where
  | uninit (k : Kind) : Built (uninit k)
  | int (n : Int32) : Built (int n)
  | float (x : Float32) : Built (float x)
  | char (code : Int32) : Built (char code)
  | str (s : String) : Built (str s)
  | bool (b : Bool) : Built (bool b)
  | literal {l : Literal} {c : Cell} : ofLiteral l = .ok c → Built c
  | setInt {c : Cell} (n : Int32) : Built c → Built (c.setInt n).2
  | setFloat {c : Cell} (x : Float32) : Built c → Built (c.setFloat x).2
  | setChar {c : Cell} (code : Int32) : Built c → Built (c.setChar code).2
  | setStr {c : Cell} (s : String) : Built c → Built (c.setStr s).2
  | setBool {c : Cell} (b : Bool) : Built c → Built (c.setBool b).2
  | assign {c other : Cell} : Built c → Built other → Built (c.assign other).2
  | binary {op : Operator} {l r c : Cell} : Built l → Built r →
      binary op l r = some (.ok c) → Built c
  | unary {op : Operator} {c u : Cell} : Built c → unary op c = .ok u → Built u

theorem ofLiteral_eq (l : Literal) : ofLiteral l = l.toValue.map of := by
  cases l <;> simp only [ofLiteral, Literal.toValue]
  case integer | double => split <;> rfl
  all_goals rfl

theorem assign_of (a b : Value) : (of a).assign (of b) = ((a.put b).1, of (a.put b).2) := by
  unfold assign Value.put
  by_cases same : a.kind = b.kind
  · rw [kind_of, kind_of, if_neg (not_not_intro same), if_pos same, same, ← kind_of b]
  · simp [same]

theorem exists_of_map {ε : Type} {x : Except ε Value} (h : x.map of = .ok c) : ∃ v, c = of v := by
  cases x with
  | error e => cases h
  | ok v => exact ⟨v, (Except.ok.inj h).symm⟩

theorem exists_of_set {k : Kind} {p : Payload} {w : Value} (h : ∃ v, c = of v)
    (held : ⟨k, some p⟩ = of w) : ∃ u, (c.set k p).2 = of u := by
  unfold set
  split
  · exact h
  · next same =>
      refine ⟨w, ?_⟩
      rw [← held, ← Decidable.not_not.mp same]

/-- Setters keep to the kind of the cell, and so does all else that builds cells. -/
theorem exists_of_built (h : Built c) : ∃ v, c = of v := by
  induction h with
  | uninit k => exact ⟨.uninit k, rfl⟩
  | int n => exact ⟨.int n, rfl⟩
  | float x => exact ⟨.float x, rfl⟩
  | char code => exact ⟨.char code, rfl⟩
  | str s => exact ⟨.str s, rfl⟩
  | bool b => exact ⟨.bool b, rfl⟩
  | literal read => exact exists_of_map ((ofLiteral_eq _).symm.trans read)
  | setInt n _ ih => exact exists_of_set ih (w := .int n) rfl
  | setFloat x _ ih => exact exists_of_set ih (w := .float x) rfl
  | setChar code _ ih => exact exists_of_set ih (w := .char code) rfl
  | setStr s _ ih => exact exists_of_set ih (w := .str s) rfl
  | setBool b _ ih => exact exists_of_set ih (w := .bool b) rfl
  | assign _ _ ih ih' =>
    obtain ⟨v, rfl⟩ := ih
    obtain ⟨w, rfl⟩ := ih'
    exact ⟨(v.put w).2, by rw [assign_of]⟩
  | binary _ _ given ih ih' =>
    obtain ⟨v, rfl⟩ := ih
    obtain ⟨w, rfl⟩ := ih'
    exact exists_of_map (Option.some.inj ((binary_of _ v w).symm.trans given))
  | unary _ given ih =>
    obtain ⟨v, rfl⟩ := ih
    exact exists_of_map ((unary_of _ v).symm.trans given)

/-! ## What operators do -/

/-- A division of integers by zero. -/
def DividesByZero (op : Operator) (l r : Cell) : Prop :=
  (op = .div ∨ op = .rem) ∧ (∃ n, l = int n) ∧ r = int 0

theorem dividesByZero_of {a b : Value} :
    DividesByZero op (of a) (of b) ↔ Value.DividesByZero op a b := by
  have int_iff (v : Value) (n : Int32) : of v = int n ↔ v = .int n := by
    cases v <;> simp [of, int, uninit, float, char, str, bool]
  simp only [DividesByZero, Value.DividesByZero, int_iff]

/-- What an operator does on two cells and on the first of them. -/
structure Exact (op : Operator) (l r : Cell) : Prop where
  /-- What a cell holds is of the type that its kind names. -/
  payload : ∀ p ∈ l.data, typeOf p = l.kind
  /-- No assertion fails. -/
  safe : (binary op l r).isSome
  binary_ok : (∃ c, binary op l r = some (.ok c)) ↔ op.isBinary ∧ l.kind = r.kind ∧
    (∃ k, resultKind op l.kind = .ok k) ∧ ¬ DividesByZero op l r
  binary_error : ∀ f, binary op l r = some (.error f) →
    (f.isMismatch = false ↔ DividesByZero op l r)
  binary_value : ∀ c, binary op l r = some (.ok c) →
    resultKind op l.kind = .ok c.kind ∧ (c.data.isSome ↔ l.data.isSome ∧ r.data.isSome)
  unary_ok : (∃ c, unary op l = .ok c) ↔ op.isUnary ∧ ∃ k, resultKind op l.kind = .ok k
  unary_error : ∀ f, unary op l = .error f → f.isMismatch
  unary_value : ∀ c, unary op l = .ok c →
    resultKind op l.kind = .ok c.kind ∧ (c.data.isSome ↔ l.data.isSome)

theorem map_eq_ok {x : Except Fault Value} : x.map of = .ok c ↔ ∃ v, x = .ok v ∧ of v = c := by
  cases x <;> simp [Except.map]

theorem map_eq_error {x : Except Fault Value} : x.map of = .error f ↔ x = .error f := by
  cases x <;> simp [Except.map]

/-- The operators are defined exactly where their kinds say, but for divisions by zero, and what
they give is of the kind that is told beforehand and holds a scalar exactly if all operands do. -/
theorem operators_exact (op : Operator) (left : Built l) (right : Built r) : Exact op l r := by
  obtain ⟨a, rfl⟩ := exists_of_built left
  obtain ⟨b, rfl⟩ := exists_of_built right
  have ok {x : Except Fault Value} : (∃ c, x.map of = .ok c) ↔ ∃ v, x = .ok v := by
    simp [map_eq_ok]
  constructor
  case payload =>
    intro p held
    rw [kind_of, typeOf_of_mem held]
  case safe => rw [binary_of, Option.isSome_some]
  case binary_ok =>
    simpa only [binary_of, Option.some.injEq, ok, kind_of, dividesByZero_of] using
      Value.exists_binary_eq_ok
  case binary_error =>
    intro f failed
    rw [binary_of, Option.some.injEq, map_eq_error] at failed
    exact (Value.isMismatch_of_binary failed).trans dividesByZero_of.symm
  case binary_value =>
    intro c given
    rw [binary_of, Option.some.injEq, map_eq_ok] at given
    obtain ⟨v, given, rfl⟩ := given
    simpa using Value.resultKind_of_binary given
  case unary_ok => simpa only [unary_of, ok, kind_of] using Value.exists_unary_eq_ok
  case unary_error =>
    intro f failed
    rw [unary_of, map_eq_error] at failed
    exact Value.isMismatch_of_unary failed
  case unary_value =>
    intro c given
    rw [unary_of, map_eq_ok] at given
    obtain ⟨v, given, rfl⟩ := given
    simpa using Value.resultKind_of_unary given

/-- The sum of a literal and of an integer that was stored in a cell. -/
theorem operators_exact_sum : Built ((uninit .integer).setInt 2).2 ∧
    ∃ c, binary .add (int 1) ((uninit .integer).setInt 2).2 = some (.ok c) :=
  have stored : Built ((uninit .integer).setInt 2).2 := .setInt 2 (.uninit .integer)
  have one : Built (int 1) := .literal (l := .integer 1) rfl
  ⟨stored, (operators_exact .add one stored).binary_ok.mpr
    ⟨rfl, rfl, ⟨_, rfl⟩, fun zero => by cases zero.2.2⟩⟩

end Jasm.Cell
