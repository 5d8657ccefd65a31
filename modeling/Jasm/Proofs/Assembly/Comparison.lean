import Mathlib.Algebra.Group.Int.Defs
import Jasm.Proofs.Assembly.Serving

/-!
# Comparisons by subtraction

A comparison is written as a subtraction and a branch on the sign of the difference. Differences
wrap around, so the sign is that of the true difference only if the difference is itself a number of
32 bits. If it is not, the order of the operands comes out reversed.

The main result says what a comparison written anywhere in a method leaves on the operand stack, and
that this is the answer of the operator exactly if equality is asked for or the difference fits.
-/

namespace Jasm.Assembly

open Value Int32

variable {a b : Int32} {op : Operator}

/-! ## Signs of differences -/

/-- The true difference of two numbers is a number of 32 bits. -/
def DifferenceFits (a b : Int32) : Prop :=
  -2 ^ 31 ≤ a.toInt - b.toInt ∧ a.toInt - b.toInt < 2 ^ 31

instance (a b : Int32) : Decidable (DifferenceFits a b) :=
  inferInstanceAs (Decidable (_ ∧ _))

theorem toInt_sub_eq (a b : Int32) :
    (a - b).toInt =
      if a.toInt - b.toInt < -2 ^ 31 then a.toInt - b.toInt + 2 ^ 32
      else if 2 ^ 31 ≤ a.toInt - b.toInt then a.toInt - b.toInt - 2 ^ 32
      else a.toInt - b.toInt := by
  have ha := a.toInt_lt
  have ha' := a.le_toInt
  have hb := b.toInt_lt
  have hb' := b.le_toInt
  rw [toInt_sub, Int.bmod_def]
  omega

theorem compareInt_eq_lt : compareInt a b = .lt ↔ a.toInt < b.toInt := by
  unfold compareInt
  simp only [lt_iff_toInt_lt]
  split
  · next h => simp [h]
  · next h => split <;> simp [h]

theorem compareInt_eq_gt : compareInt a b = .gt ↔ b.toInt < a.toInt := by
  unfold compareInt
  simp only [lt_iff_toInt_lt]
  split
  · next h => simp [Int.le_of_lt h]
  · simp

theorem compareInt_eq_eq : compareInt a b = .eq ↔ a.toInt = b.toInt := by
  unfold compareInt
  simp only [lt_iff_toInt_lt]
  split
  · simp
    omega
  · split <;> (simp; omega)

theorem compareInt_sub_zero (fits : DifferenceFits a b) :
    compareInt (a - b) 0 = compareInt a b := by
  obtain ⟨low, high⟩ := fits
  have hd := toInt_sub_eq a b
  rw [if_neg (by omega), if_neg (by omega)] at hd
  have hz : (0 : Int32).toInt = 0 := toInt_zero
  cases h : compareInt a b with
  | lt =>
    have := compareInt_eq_lt.mp h
    exact compareInt_eq_lt.mpr (by omega)
  | eq =>
    have := compareInt_eq_eq.mp h
    exact compareInt_eq_eq.mpr (by omega)
  | gt =>
    have := compareInt_eq_gt.mp h
    exact compareInt_eq_gt.mpr (by omega)

theorem compareInt_sub_zero_of_not_fits (h : ¬ DifferenceFits a b) :
    compareInt a b ≠ .eq ∧ compareInt (a - b) 0 = (compareInt a b).swap := by
  have ha := a.toInt_lt
  have ha' := a.le_toInt
  have hb := b.toInt_lt
  have hb' := b.le_toInt
  have hd := toInt_sub_eq a b
  have hz : (0 : Int32).toInt = 0 := toInt_zero
  unfold DifferenceFits at h
  by_cases hlow : a.toInt - b.toInt < -2 ^ 31
  · have hlt : compareInt a b = .lt := compareInt_eq_lt.mpr (by omega)
    rw [if_pos hlow] at hd
    refine ⟨by simp [hlt], ?_⟩
    rw [hlt]
    exact compareInt_eq_gt.mpr (by omega)
  · have hgt : compareInt a b = .gt := compareInt_eq_gt.mpr (by omega)
    rw [if_neg hlow, if_pos (by omega)] at hd
    refine ⟨by simp [hgt], ?_⟩
    rw [hgt]
    exact compareInt_eq_lt.mpr (by omega)

theorem Cond.holds_eq {c : Cond} (hc : Cond.ofOperator? op = some c) (n : Int32) :
    c.holds n = decideOrder op (compareInt n 0) := by
  have hlt : compareInt n 0 = .lt ↔ n < 0 := by
    rw [compareInt_eq_lt, lt_iff_toInt_lt]
  have hgt : compareInt n 0 = .gt ↔ 0 < n := by
    rw [compareInt_eq_gt, lt_iff_toInt_lt]
  have heq : compareInt n 0 = .eq ↔ n = 0 := by
    rw [compareInt_eq_eq, toInt_inj]
  cases op <;> cases hc <;> simp [Cond.holds, decideOrder, hlt, hgt, heq]

section

variable (hop : op.isRelational)
include hop

theorem decideOrder_swap {o : Ordering} (ho : o ≠ .eq) :
    decideOrder op o.swap = decideOrder op o ↔ op = .eq ∨ op = .notEq := by
  cases op <;> cases o <;> simp_all [Operator.isRelational, decideOrder]

theorem Cond.holds_sub_iff {c : Cond} (hc : Cond.ofOperator? op = some c) {a b : Int32} :
    c.holds (a - b) = decideOrder op (compareInt a b) ↔
      op = .eq ∨ op = .notEq ∨ DifferenceFits a b := by
  rw [Cond.holds_eq hc]
  by_cases fits : DifferenceFits a b
  · rw [compareInt_sub_zero fits]
    simp [fits]
  · obtain ⟨differ, swapped⟩ := compareInt_sub_zero_of_not_fits fits
    rw [swapped, decideOrder_swap hop differ]
    simp [fits]

theorem Cond.exists_ofOperator? :
    ∃ c, Cond.ofOperator? op = some c := by
  cases op <;> cases hop <;> exact ⟨_, rfl⟩

theorem binary_int (a b : Int32) :
    binary op (.int a) (.int b) =
      .ok (.bool (decideOrder op (compareInt a b))) := by
  cases op <;> cases hop <;> rfl

end

/-! ## Running a comparison -/

section

open Machine (Runs)

variable {k : Class} {f : Frame} {fs : List Frame} {globals : String → Option Int32}
  {out : List (Value × Bool)} {stack : List Operand} {rest target : List Instruction} {c : Cond}
  {l : Label} {n : Int32}

theorem Machine.runs_branch (h : c.holds n = true) (ht : after l f.body = some target) :
    Runs k ⟨f.set (.branch c l :: rest) (.int n :: stack) :: fs, globals, out⟩
      ⟨f.set target stack :: fs, globals, out⟩ := by
  refine .one ?_
  show (if c.holds n = true then (after l f.body).map _ else _) = _
  rw [if_pos h, ht]
  rfl

theorem Machine.runs_branch_of_not (h : c.holds n = false) :
    Runs k ⟨f.set (.branch c l :: rest) (.int n :: stack) :: fs, globals, out⟩
      ⟨f.set rest stack :: fs, globals, out⟩ := by
  refine .one ?_
  show (if c.holds n = true then (after l f.body).map _ else _) = _
  rw [if_neg (by simp [h])]
  rfl

theorem Machine.runs_goto (ht : after l f.body = some target) :
    Runs k ⟨f.set (.goto l :: rest) stack :: fs, globals, out⟩
      ⟨f.set target stack :: fs, globals, out⟩ := by
  refine .one ?_
  show (after l f.body).map _ = _
  rw [ht]
  rfl

theorem runs_relation {truthy join : Label} (nodup : (labels f.body).Nodup)
    (hs : Emit.relationCode c truthy join ++ rest <:+ f.body) {a b : Int32} :
    Runs k
      ⟨f.set (Emit.relationCode c truthy join ++ rest) (.int b :: .int a :: stack)
        :: fs, globals, out⟩
      ⟨f.set rest (.ofBool (c.holds (a - b)) :: stack) :: fs, globals, out⟩ := by
  have htruthy : after truthy f.body = some (.pushBool true :: .label join :: rest) :=
    after_eq_some nodup <| List.IsSuffix.trans
      ⟨[.op .sub, .branch c truthy, .pushBool false, .goto join], rfl⟩ hs
  have hjoin : after join f.body = some rest :=
    after_eq_some nodup <| List.IsSuffix.trans
      ⟨[.op .sub, .branch c truthy, .pushBool false, .goto join, .label truthy, .pushBool true],
        rfl⟩ hs
  refine .cons rfl ?_
  cases h : c.holds (a - b) with
  | true => exact (Machine.runs_branch h htruthy).trans (.cons rfl (.one rfl))
  | false => exact (Machine.runs_branch_of_not h).trans (.cons rfl (Machine.runs_goto hjoin))

end

/-! ## Writing a comparison -/

namespace Emit

open LabelTable

variable {g : Generator} {op : Operator} {c : Cond}

/-- In a method, with a label of that method which is still to be defined. -/
def Awaits (g : Generator) (l : Label) : Prop :=
  g.phase = .method ∧ g.labels.get? l = some ⟨false, g.labels.current⟩

theorem exists_writes_jump (mnemonic : String) {l : Label} (i : Instruction) (h : Awaits g l) :
    ∃ g', (jump mnemonic l i).Writes g () g' ∧ ∀ l', Awaits g l' → Awaits g' l' :=
  ⟨_, writes_jump_own h.1 h.2 rfl, fun l' h' => ⟨h'.1, (get?_bind_own h.2 rfl l').trans h'.2⟩⟩

theorem exists_writes_define {l : Label} (h : Awaits g l) :
    ∃ g', (define l).Writes g () g' ∧ ∀ l', l ≠ l' → Awaits g l' → Awaits g' l' :=
  ⟨_, writes_define_own h.1 h.2, fun l' ne h' =>
    ⟨h'.1, ((get?_define _ l l').trans (if_neg ne)).trans h'.2⟩⟩

theorem exists_writes_relation (hc : Cond.ofOperator? op = some c) (hg : g.phase = .method) :
    ∃ g', (relation op).Writes g () g' := by
  let t := g.labels
  have ne : labelOf t.stem t.counter ≠ labelOf t.stem (t.counter + 1) :=
    fun h => absurd (labelOf_injective h) (by omega)
  let g₁ : Generator := { g with labels := t.reserveOne.2.reserveOne.2 }
  have htruthy : Awaits (g₁.pushInstr (.op .sub)) (labelOf t.stem t.counter) :=
    ⟨hg, (get?_reserveOne _).trans
      ((if_neg ne.symm).trans ((get?_reserveOne t).trans (if_pos rfl)))⟩
  have hjoin : Awaits (g₁.pushInstr (.op .sub)) (labelOf t.stem (t.counter + 1)) :=
    ⟨hg, (get?_reserveOne _).trans (if_pos rfl)⟩
  obtain ⟨g₂, w₂, h₂⟩ := exists_writes_jump c.mnemonic (.branch c _) htruthy
  obtain ⟨g₃, w₃, h₃⟩ := exists_writes_jump (g := g₂.pushInstr (.pushBool false)) "goto"
    (.goto _) (h₂ _ hjoin)
  obtain ⟨g₄, w₄, h₄⟩ := exists_writes_define (h₃ _ (h₂ _ htruthy))
  have last := h₄ _ ne (h₃ _ (h₂ _ hjoin))
  obtain ⟨g₅, w₅, -⟩ := exists_writes_define (g := g₄.pushInstr (.pushBool true)) last
  simp only [relation, writes_requireMethod_bind, hc, writes_reserve_bind,
    show (2 : Int).toNat = 2 from rfl, reserve_two, writes_instr_bind]
  exact ⟨g₅, hg, by rw [hg]; decide, by decide, writes_bind.mpr ⟨(), g₂, w₂, writes_bind.mpr ⟨(), _,
    writes_loadBool.mpr ⟨(h₂ _ hjoin).1, rfl⟩, writes_bind.mpr ⟨(), g₃, w₃, writes_bind.mpr ⟨(), g₄,
      w₄, writes_bind.mpr ⟨(), _, writes_loadBool.mpr ⟨last.1, rfl⟩, w₅⟩⟩⟩⟩⟩⟩

/-- The comparison written behind `g` turns the numbers `a` and `b`, the second on top, into the
truth value `holds` and does nothing else. -/
def RelationLeaves (g : Generator) (op : Operator) (a b : Int32) (holds : Bool) : Prop :=
  ∃ g' code, (relation op).Writes g () g' ∧
    g'.lines.toList = g.lines.toList ++ code.map (fun i => (g.depth, .instr i)) ∧
    ∀ k locals returns fs globals out stack,
      Machine.Runs k
        ⟨⟨code, code, locals, .int b :: .int a :: stack, returns⟩ :: fs, globals, out⟩
        ⟨⟨code, [], locals, .ofBool holds :: stack, returns⟩ :: fs, globals, out⟩

theorem relationLeaves (hc : Cond.ofOperator? op = some c) (hg : g.phase = .method)
    {a b : Int32} : RelationLeaves g op a b (c.holds (a - b)) := by
  obtain ⟨g', h⟩ := exists_writes_relation hc hg
  obtain ⟨c', hc', adds⟩ := adds_of_relation rfl h
  rw [hc] at hc'
  cases hc'
  refine ⟨g', _, h, adds.lines, fun k locals returns fs globals out stack => ?_⟩
  have distinct : labelOf g.labels.stem g.labels.counter ≠
      labelOf g.labels.stem (g.labels.counter + 1) := by
    intro heq
    exact absurd (labelOf_injective heq) (by omega)
  exact runs_relation (f := ⟨_, [], locals, [], returns⟩)
    (by simp [relationCode, Instruction.label?, distinct])
    (List.suffix_refl (relationCode c _ _ ++ []))

/-- A comparison is always carried out and leaves one truth value in the place of its operands. It
is the value of the operator exactly if the operator asks for equality or the difference fits. -/
theorem relation_agrees_iff (g : Generator) (hg : g.phase = .method) (op : Operator)
    (hop : op.isRelational) (a b : Int32) :
    ∃ holds, RelationLeaves g op a b holds ∧
      (Value.binary op (.int a) (.int b) = .ok (.bool holds) ↔
        op = .eq ∨ op = .notEq ∨ DifferenceFits a b) := by
  obtain ⟨c, hc⟩ := Cond.exists_ofOperator? hop
  refine ⟨c.holds (a - b), relationLeaves hc hg, ?_⟩
  rw [binary_int hop, ← Cond.holds_sub_iff hop hc, Except.ok.injEq, Value.bool.injEq]
  exact eq_comm

/-- A generator that can take instructions. -/
def inMethod : Generator := { Generator.new "Main" .standard with phase := .method }

/-- The largest and the smallest number differ whatever their difference. -/
theorem relation_agrees_iff_extremes :
    inMethod.phase = .method ∧ Operator.notEq.isRelational ∧
      ∃ holds, RelationLeaves inMethod .notEq (-2147483648) 2147483647 holds ∧
        (Value.binary .notEq (.int (-2147483648)) (.int 2147483647) = .ok (.bool holds) ↔
          Operator.notEq = .eq ∨ Operator.notEq = .notEq ∨
            DifferenceFits (-2147483648) 2147483647) :=
  ⟨rfl, rfl, relation_agrees_iff inMethod rfl .notEq rfl (-2147483648) 2147483647⟩

/-- The smallest number is less than one, but the comparison of the two leaves zero. -/
theorem relation_wraps_around :
    RelationLeaves inMethod .less (-2147483648) 1 false ∧
      Value.binary .less (.int (-2147483648)) (.int 1) = .ok (.bool true) :=
  ⟨relationLeaves (c := .lt) rfl rfl, rfl⟩

end Emit

end Jasm.Assembly
