import Mathlib.Algebra.Group.Int.Even
import Jasm.Value.Literal

/-!
# What operators give

Behind the checks of kinds, an operator meets only scalars it is defined on: each branch that is
there for other scalars is never taken. So whether an operator gives a value is told by the kinds of
its operands, but for divisions by zero, and so are the kind of what it gives and whether that holds
a scalar.
-/

namespace Jasm.Value

open Int32

variable {op : Operator} {a b v : Value}

/-! ## Operands that hold scalars -/

theorem applyUnary_of_admits (unary : op.isUnary) (admits : op.admits v.kind) (held : v.isInit) :
    ∃ u, applyUnary op v = .ok u ∧ u.isInit ∧ u.kind = op.resultKind v.kind := by
  cases op <;> cases unary <;> cases v <;> cases held <;>
    first | exact ⟨_, rfl, rfl, rfl⟩ | simp [Operator.admits] at admits

theorem relation_of_kinds (op : Operator) (kinds : b.kind = a.kind) (held : a.isInit)
    (held' : b.isInit) : ∃ r, relation op a b = .ok (.bool r) := by
  cases a <;> cases held <;> cases b <;> cases held' <;> cases kinds
  case float.refl.float.refl.refl x y =>
    simp only [relation]
    split <;> exact ⟨_, rfl⟩
  all_goals exact ⟨_, rfl⟩

/-- A division of integers by zero. -/
def DividesByZero (op : Operator) (a b : Value) : Prop :=
  (op = .div ∨ op = .rem) ∧ (∃ n, a = .int n) ∧ b = .int 0

theorem intArith_of_isArithmetic (arithmetic : op.isArithmetic) (m n : Int32) :
    (¬ DividesByZero op (.int m) (.int n) ∧ ∃ k, intArith op m n = .ok (.int k)) ∨
      DividesByZero op (.int m) (.int n) ∧
        ∃ f, intArith op m n = .error f ∧ f.isMismatch = false := by
  cases op <;> cases arithmetic
  case div.refl | rem.refl =>
    simp only [intArith]
    split
    · next zero =>
        subst zero
        exact .inr ⟨⟨by simp, ⟨m, rfl⟩, rfl⟩, _, rfl, rfl⟩
    · next nonzero =>
        refine .inl ⟨fun h => nonzero ?_, _, rfl⟩
        cases h.2.2
        rfl
  all_goals exact .inl ⟨by simp [DividesByZero], _, rfl⟩

theorem floatArith_of_admits (arithmetic : op.isArithmetic) (admits : op.admits .float)
    (x y : Float32) : ∃ z, floatArith op x y = .ok (.float z) := by
  cases op <;> cases arithmetic
  case rem.refl => cases admits
  all_goals exact ⟨_, rfl⟩

/-- How an operator ends on operands that hold scalars it is defined on. -/
def Ends (op : Operator) (a b : Value) (r : Except Fault Value) : Prop :=
  (¬ DividesByZero op a b ∧ ∃ u, r = .ok u ∧ u.isInit ∧ u.kind = op.resultKind a.kind) ∨
    DividesByZero op a b ∧ ∃ f, r = .error f ∧ f.isMismatch = false

theorem ends_applyBinary_of_isArithmetic (arithmetic : op.isArithmetic)
    (admits : op.admits a.kind) (kinds : b.kind = a.kind) (held : a.isInit) (held' : b.isInit) :
    Ends op a b (applyBinary op a b) := by
  have plain : op.isRelational = false := by cases op <;> cases arithmetic <;> rfl
  have result (k : Kind) : op.resultKind k = k := by cases op <;> cases arithmetic <;> rfl
  have number : a.kind = .integer ∨ a.kind = .float := by
    cases op <;> cases arithmetic <;> simp_all [Operator.admits]
  rw [Ends, result]
  cases a <;> cases held <;> rcases number with number | number <;> cases number <;>
    cases b <;> cases held' <;> cases kinds
  case int.refl.inl.refl.int.refl.refl m n =>
    simp only [applyBinary, plain]
    rcases intArith_of_isArithmetic arithmetic m n with ⟨nonzero, k, hk⟩ | fault
    · exact .inl ⟨nonzero, _, hk, rfl, rfl⟩
    · exact .inr fault
  case float.refl.inr.refl.float.refl.refl x y =>
    simp only [applyBinary, plain]
    obtain ⟨z, hz⟩ := floatArith_of_admits arithmetic admits x y
    exact .inl ⟨by simp [DividesByZero], _, hz, rfl, rfl⟩

theorem ends_applyBinary (binary : op.isBinary) (admits : op.admits a.kind)
    (kinds : b.kind = a.kind) (held : a.isInit) (held' : b.isInit) :
    Ends op a b (applyBinary op a b) := by
  cases relational : op.isRelational with
  | true =>
    obtain ⟨r, hr⟩ := relation_of_kinds op kinds held held'
    have nonzero : ¬ DividesByZero op a b := by
      rintro ⟨rfl | rfl, -⟩ <;> cases relational
    refine .inl ⟨nonzero, .bool r, ?_, rfl, by simp [Operator.resultKind, relational]⟩
    rw [applyBinary.eq_def, if_pos relational, hr]
  | false =>
    have other : op.isArithmetic ∨ op.isLogical := by
      simpa [Operator.isBinary, relational] using binary
    rcases other with arithmetic | logical
    · exact ends_applyBinary_of_isArithmetic arithmetic admits kinds held held'
    · cases op <;> cases logical <;> cases a <;> cases held <;> cases admits <;> cases b <;>
        cases held' <;> cases kinds
      all_goals exact .inl ⟨by simp [DividesByZero], _, rfl, rfl, rfl⟩

/-! ## All operands -/

/-- The kinds of the operands allow a unary operator. -/
def Allows₁ (op : Operator) (a : Value) : Prop := op.isUnary ∧ op.admits a.kind

/-- The kinds of the operands allow a binary operator. -/
def Allows₂ (op : Operator) (a b : Value) : Prop :=
  op.isBinary ∧ b.kind = a.kind ∧ op.admits a.kind

theorem unary_of_allows (h : Allows₁ op a) :
    ∃ v, unary op a = .ok v ∧ v.isInit = a.isInit ∧ v.kind = op.resultKind a.kind := by
  obtain ⟨unary, admits⟩ := h
  cases held : a.isInit with
  | false =>
    exact ⟨.uninit (op.resultKind a.kind), by simp [Value.unary, unary, admits, held], rfl, rfl⟩
  | true =>
    obtain ⟨u, applied, known, kind⟩ := applyUnary_of_admits unary admits held
    exact ⟨u, by simp [Value.unary, unary, admits, held, applied], known, kind⟩

theorem unary_of_not_allows (h : ¬ Allows₁ op a) : ∃ f, unary op a = .error f ∧ f.isMismatch := by
  unfold Value.unary
  split_ifs with unary admits
  iterate 2 exact ⟨_, rfl, rfl⟩
  all_goals exact absurd ⟨by simpa using unary, by simpa using admits⟩ h

theorem binary_of_allows (h : Allows₂ op a b) :
    (¬ DividesByZero op a b ∧ ∃ v, binary op a b = .ok v ∧ v.isInit = (a.isInit && b.isInit) ∧
        v.kind = op.resultKind a.kind) ∨
      DividesByZero op a b ∧ ∃ f, binary op a b = .error f ∧ f.isMismatch = false := by
  obtain ⟨hop, kinds, admits⟩ := h
  cases held : a.isInit && b.isInit with
  | false =>
    refine .inl ⟨?_, .uninit (op.resultKind a.kind), ?_, rfl, rfl⟩
    · rintro ⟨-, ⟨n, rfl⟩, rfl⟩
      cases held
    · simp [Value.binary, hop, kinds, admits, held]
  | true =>
    have both := Bool.and_eq_true_iff.mp held
    have apply : binary op a b = applyBinary op a b := by
      simp [Value.binary, hop, kinds, admits, both.1, both.2]
    rw [apply]
    exact ends_applyBinary hop admits kinds both.1 both.2

theorem binary_of_not_allows (h : ¬ Allows₂ op a b) :
    ∃ f, binary op a b = .error f ∧ f.isMismatch := by
  unfold Value.binary
  split_ifs with hop kinds admits
  iterate 3 exact ⟨_, rfl, rfl⟩
  all_goals
    exact absurd ⟨by simpa using hop, (Decidable.not_not.mp kinds).symm, by simpa using admits⟩ h

theorem unary_eq_ok (h : unary op a = .ok v) :
    Allows₁ op a ∧ v.isInit = a.isInit ∧ v.kind = op.resultKind a.kind := by
  by_cases allows : Allows₁ op a
  · obtain ⟨u, given, facts⟩ := unary_of_allows allows
    cases given.symm.trans h
    exact ⟨allows, facts⟩
  · obtain ⟨f, refused, -⟩ := unary_of_not_allows allows
    cases refused.symm.trans h

theorem binary_eq_ok (h : binary op a b = .ok v) :
    Allows₂ op a b ∧ ¬ DividesByZero op a b ∧ v.isInit = (a.isInit && b.isInit) ∧
      v.kind = op.resultKind a.kind := by
  by_cases allows : Allows₂ op a b
  · rcases binary_of_allows allows with ⟨nonzero, u, given, facts⟩ | ⟨-, f, refused, -⟩
    · cases given.symm.trans h
      exact ⟨allows, nonzero, facts⟩
    · cases refused.symm.trans h
  · obtain ⟨f, refused, -⟩ := binary_of_not_allows allows
    cases refused.symm.trans h

theorem unary_isInit (h : unary op a = .ok v) : v.isInit = a.isInit := (unary_eq_ok h).2.1

theorem binary_isInit (h : binary op a b = .ok v) : v.isInit = (a.isInit && b.isInit) :=
  (binary_eq_ok h).2.2.1

theorem binary_uninit (h : binary op a b = .ok v) (unknown : v.isInit = false) :
    a.isInit = false ∨ b.isInit = false := by
  rwa [binary_isInit h, Bool.and_eq_false_iff] at unknown

theorem resultKind_eq_ok {k result : Kind} : resultKind op k = .ok result ↔
    (op.isBinary ∨ op.isUnary) ∧ op.admits k ∧ result = op.resultKind k := by
  unfold resultKind
  rw [← Bool.or_eq_true]
  cases op.isBinary || op.isUnary <;> cases op.admits k <;> simp [@eq_comm _ result]

theorem allows₂_iff : Allows₂ op a b ↔
    op.isBinary ∧ a.kind = b.kind ∧ ∃ k, resultKind op a.kind = .ok k := by
  simp only [Allows₂, resultKind_eq_ok]
  constructor
  · rintro ⟨hop, kinds, admits⟩
    exact ⟨hop, kinds.symm, _, .inl hop, admits, rfl⟩
  · rintro ⟨hop, kinds, -, -, admits, -⟩
    exact ⟨hop, kinds.symm, admits⟩

theorem allows₁_iff : Allows₁ op a ↔ op.isUnary ∧ ∃ k, resultKind op a.kind = .ok k := by
  simp only [Allows₁, resultKind_eq_ok]
  constructor
  · rintro ⟨hop, admits⟩
    exact ⟨hop, _, .inr hop, admits, rfl⟩
  · rintro ⟨hop, -, -, admits, -⟩
    exact ⟨hop, admits⟩

theorem exists_binary_eq_ok : (∃ v, binary op a b = .ok v) ↔ op.isBinary ∧ a.kind = b.kind ∧
    (∃ k, resultKind op a.kind = .ok k) ∧ ¬ DividesByZero op a b := by
  constructor
  · rintro ⟨v, h⟩
    obtain ⟨allows, nonzero, -⟩ := binary_eq_ok h
    obtain ⟨hop, kinds, known⟩ := allows₂_iff.mp allows
    exact ⟨hop, kinds, known, nonzero⟩
  · rintro ⟨hop, kinds, known, nonzero⟩
    rcases binary_of_allows (allows₂_iff.mpr ⟨hop, kinds, known⟩) with ⟨-, v, given, -⟩ | ⟨zero, -⟩
    · exact ⟨v, given⟩
    · exact absurd zero nonzero

theorem isMismatch_of_binary {f : Fault} (failed : binary op a b = .error f) :
    f.isMismatch = false ↔ DividesByZero op a b := by
  by_cases allows : Allows₂ op a b
  · rcases binary_of_allows allows with ⟨-, v, given, -⟩ | ⟨zero, f', refused, h⟩
    · cases given.symm.trans failed
    · cases refused.symm.trans failed
      exact ⟨fun _ => zero, fun _ => h⟩
  · obtain ⟨f', refused, h⟩ := binary_of_not_allows allows
    cases refused.symm.trans failed
    refine ⟨fun h' => absurd (h.symm.trans h') (by decide), ?_⟩
    rintro ⟨rfl | rfl, ⟨n, rfl⟩, rfl⟩
    · exact absurd ⟨rfl, rfl, rfl⟩ allows
    · exact absurd ⟨rfl, rfl, rfl⟩ allows

theorem resultKind_of_binary (h : binary op a b = .ok v) :
    resultKind op a.kind = .ok v.kind ∧ (v.isInit ↔ a.isInit ∧ b.isInit) := by
  obtain ⟨⟨hop, -, admits⟩, -, held, kind⟩ := binary_eq_ok h
  exact ⟨resultKind_eq_ok.mpr ⟨.inl hop, admits, kind⟩, by rw [held, Bool.and_eq_true]⟩

theorem exists_unary_eq_ok :
    (∃ v, unary op a = .ok v) ↔ op.isUnary ∧ ∃ k, resultKind op a.kind = .ok k := by
  rw [← allows₁_iff]
  constructor
  · rintro ⟨v, h⟩
    exact (unary_eq_ok h).1
  · intro allows
    obtain ⟨v, given, -⟩ := unary_of_allows allows
    exact ⟨v, given⟩

theorem isMismatch_of_unary {f : Fault} (failed : unary op a = .error f) : f.isMismatch := by
  by_cases allows : Allows₁ op a
  · obtain ⟨v, given, -⟩ := unary_of_allows allows
    cases given.symm.trans failed
  · obtain ⟨f', refused, h⟩ := unary_of_not_allows allows
    cases refused.symm.trans failed
    exact h

theorem resultKind_of_unary (h : unary op a = .ok v) :
    resultKind op a.kind = .ok v.kind ∧ (v.isInit ↔ a.isInit) := by
  obtain ⟨⟨hop, admits⟩, held, kind⟩ := unary_eq_ok h
  exact ⟨resultKind_eq_ok.mpr ⟨.inr hop, admits, kind⟩, by rw [held]⟩

/-! ## Integers -/

/-- A whole number, reduced modulo 2^32 to an integer. -/
def Wraps (n : Int) (m : Int32) : Prop :=
  -2 ^ 31 ≤ m.toInt ∧ m.toInt < 2 ^ 31 ∧ m.toInt % 2 ^ 32 = n % 2 ^ 32

theorem wraps_of_bmod {n : Int} {m : Int32} (h : m.toInt = n.bmod (2 ^ 32)) : Wraps n m :=
  ⟨m.le_toInt, m.toInt_lt, by rw [h]; exact Int.bmod_emod⟩

theorem div_mul_add_mod (a b : Int32) : a / b * b + a % b = a := by
  rw [← toInt_inj, toInt_add, toInt_mul, toInt_div, toInt_mod,
    Int.bmod_mul_bmod, Int.bmod_add_bmod, Int.tdiv_mul_add_tmod]
  exact a.toInt_bmod

/-- What the remainder of a division is. -/
structure IsRemainder (a b r : Int32) : Prop where
  small : r.toInt.natAbs < b.toInt.natAbs
  sign : r = 0 ∨ r.toInt.sign = a.toInt.sign

theorem isRemainder_mod (a : Int32) {b : Int32} (nonzero : b ≠ 0) : IsRemainder a b (a % b) where
  small := by
    rw [toInt_mod, Int.natAbs_tmod]
    refine Nat.mod_lt _ (Int.natAbs_pos.mpr fun h => nonzero ?_)
    exact toInt_inj.mp h
  sign := by
    rw [← toInt_inj, toInt_mod, Int.sign_tmod]
    split
    · next divides => exact .inl (Int.tmod_eq_zero_of_dvd divides)
    · exact .inr rfl

/-- Integer operators compute with whole numbers and wrap around. Quotient and remainder give back
the dividend, also where the quotient does not fit. -/
theorem integer_arithmetic (a b : Int32) :
    (∃ n, binary .add (.int a) (.int b) = .ok (.int n) ∧ Wraps (a.toInt + b.toInt) n) ∧
    (∃ n, binary .sub (.int a) (.int b) = .ok (.int n) ∧ Wraps (a.toInt - b.toInt) n) ∧
    (∃ n, binary .mul (.int a) (.int b) = .ok (.int n) ∧ Wraps (a.toInt * b.toInt) n) ∧
    (∃ n, unary .neg (.int a) = .ok (.int n) ∧ Wraps (-a.toInt) n) ∧
    (b ≠ 0 → ∃ q r, binary .div (.int a) (.int b) = .ok (.int q) ∧
      binary .rem (.int a) (.int b) = .ok (.int r) ∧
      Wraps (a.toInt.tdiv b.toInt) q ∧ IsRemainder a b r ∧
      (binary .mul (.int q) (.int b) >>= (binary .add · (.int r))) = .ok (.int a)) := by
  refine ⟨⟨_, rfl, wraps_of_bmod (a.toInt_add b)⟩, ⟨_, rfl, wraps_of_bmod (a.toInt_sub b)⟩,
    ⟨_, rfl, wraps_of_bmod (a.toInt_mul b)⟩, ⟨_, rfl, wraps_of_bmod a.toInt_neg⟩, ?_⟩
  intro nonzero
  refine ⟨a / b, a % b, if_neg nonzero, if_neg nonzero, wraps_of_bmod (a.toInt_div b),
    isRemainder_mod a nonzero, ?_⟩
  show Except.ok (Value.int (a / b * b + a % b)) = _
  rw [div_mul_add_mod]

/-- The least integer divided by minus one. -/
theorem integer_arithmetic_least : ∃ q r, binary .div (.int Int32.minValue) (.int (-1)) =
    .ok (.int q) ∧
    binary .rem (.int Int32.minValue) (.int (-1)) = .ok (.int r) ∧ Wraps (2 ^ 31) q ∧
    (binary .mul (.int q) (.int (-1)) >>= (binary .add · (.int r))) =
      .ok (.int Int32.minValue) := by
  obtain ⟨q, r, quotient, remainder, wraps, -, back⟩ :=
    (integer_arithmetic Int32.minValue (-1)).2.2.2.2 (by decide)
  exact ⟨q, r, quotient, remainder, wraps, back⟩

end Jasm.Value
