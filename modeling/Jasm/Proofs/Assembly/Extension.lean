import Std.Data.String.ToNat
import Jasm.Proofs.Assembly.Writing

/-!
# Code behind code

Nearly all steps inside a method come to this: some instructions are written behind those that are
there, and some labels are handed out. `Extends g code n g'` says which instructions these are and
how many labels have been handed out after them; everything else that later code depends on stays.

The tables of branches and loops are kept apart from this. The steps that end a branch or a loop
change its own entry, and what has to be known about them is only that they leave the entries of all
statements around it alone: `Keeps ifs loops g g'`.
-/

namespace Jasm.Assembly

open Option Array

namespace Generator

/-- The instructions `code` were written behind those of `g`, and `n` labels have been handed
out. -/
structure Extends (g : Generator) (code : List Instruction) (n : Nat) (g' : Generator) : Prop where
  lines : g'.lines.toList = g.lines.toList ++ code.map fun i => (g.depth, .instr i)
  counter : g'.labels.counter = n
  stem : g'.labels.stem = g.labels.stem
  phase : g'.phase = g.phase
  depth : g'.depth = g.depth
  method : g'.method = g.method
  options : g'.options = g.options
  className : g'.className = g.className
  terminal : g'.terminal = code.getLast?.elim g.terminal Instruction.isTerminal

/-- The first entries of the tables of branches and loops are still what they were. -/
structure Keeps (ifs loops : Nat) (g g' : Generator) : Prop where
  ifs : ∀ i, i < ifs → g'.ifs[i]? = g.ifs[i]?
  loops : ∀ i, i < loops → g'.loops[i]? = g.loops[i]?

variable {g g₁ g₂ : Generator} {code code₁ code₂ : List Instruction} {n n₁ n₂ : Nat}

namespace Extends

theorem refl (hn : g.labels.counter = n) : Extends g [] n g :=
  ⟨by simp, hn, rfl, rfl, rfl, rfl, rfl, rfl, rfl⟩

theorem trans (first : Extends g code₁ n₁ g₁) (second : Extends g₁ code₂ n₂ g₂) :
    Extends g (code₁ ++ code₂) n₂ g₂ where
  lines := by
    rw [second.lines, first.lines, first.depth, List.map_append, List.append_assoc]
  counter := second.counter
  stem := second.stem.trans first.stem
  phase := second.phase.trans first.phase
  depth := second.depth.trans first.depth
  method := second.method.trans first.method
  options := second.options.trans first.options
  className := second.className.trans first.className
  terminal := by
    rw [second.terminal, first.terminal, List.getLast?_append]
    cases code₂.getLast? <;> rfl

theorem pushInstr (hn : g.labels.counter = n) (i : Instruction) :
    Extends g [i] n (g.pushInstr i) :=
  ⟨by simp [Generator.pushInstr, Generator.push], hn, rfl, rfl, rfl, rfl, rfl, rfl, rfl⟩

theorem withLabels (t : LabelTable) (stem : t.stem = g.labels.stem) (hn : t.counter = n) :
    Extends g [] n { g with labels := t } :=
  ⟨by simp, hn, stem, rfl, rfl, rfl, rfl, rfl, rfl⟩

theorem withPrints (hn : g.labels.counter = n) (prints : Nat) :
    Extends g [] n { g with prints := prints } :=
  ⟨by simp, hn, rfl, rfl, rfl, rfl, rfl, rfl, rfl⟩

theorem withIfs (hn : g.labels.counter = n) {ifs : Array IfBlock} :
    Extends g [] n { g with ifs := ifs } :=
  ⟨by simp, hn, rfl, rfl, rfl, rfl, rfl, rfl, rfl⟩

theorem withLoops (hn : g.labels.counter = n) {loops : Array Loop} :
    Extends g [] n { g with loops := loops } :=
  ⟨by simp, hn, rfl, rfl, rfl, rfl, rfl, rfl, rfl⟩

end Extends

namespace Keeps

variable {ifs loops ifs' loops' : Nat}

theorem refl {ifs loops : Nat} {g : Generator} : Keeps ifs loops g g :=
  ⟨fun _ _ => rfl, fun _ _ => rfl⟩

theorem trans (first : Keeps ifs loops g g₁) (second : Keeps ifs loops g₁ g₂) :
    Keeps ifs loops g g₂ :=
  ⟨fun i hi => (second.ifs i hi).trans (first.ifs i hi),
    fun i hi => (second.loops i hi).trans (first.loops i hi)⟩

theorem mono (h : Keeps ifs loops g g₁) (hi : ifs' ≤ ifs) (hl : loops' ≤ loops) :
    Keeps ifs' loops' g g₁ :=
  ⟨fun i lt => h.ifs i (Nat.lt_of_lt_of_le lt hi), fun i lt => h.loops i (Nat.lt_of_lt_of_le lt hl)⟩

theorem size_le (h : Keeps g.ifs.size g.loops.size g g₁) :
    g.ifs.size ≤ g₁.ifs.size ∧ g.loops.size ≤ g₁.loops.size := by
  refine ⟨Nat.le_of_not_lt fun lt => ?_, Nat.le_of_not_lt fun lt => ?_⟩
  · have := h.ifs _ lt
    simp [lt] at this
  · have := h.loops _ lt
    simp [lt] at this

theorem of_ifs {id : Nat} {b : IfBlock} (hl : g₁.loops = g.loops)
    (hi : g₁.ifs = g.ifs.setIfInBounds id b ∨ id = g.ifs.size ∧ g₁.ifs = g.ifs.push b) :
    Keeps id loops g g₁ := by
  refine ⟨fun i lt => ?_, fun _ _ => by rw [hl]⟩
  rcases hi with hi | ⟨rfl, hi⟩
  · rw [hi, getElem?_setIfInBounds_ne (Nat.ne_of_gt lt)]
  · rw [hi, getElem?_push_lt lt, getElem?_eq_getElem lt]

theorem of_loops {id : Nat} {l : Loop} (hi : g₁.ifs = g.ifs)
    (hl : g₁.loops = g.loops.setIfInBounds id l ∨ id = g.loops.size ∧ g₁.loops = g.loops.push l) :
    Keeps ifs id g g₁ := by
  refine ⟨fun _ _ => by rw [hi], fun i lt => ?_⟩
  rcases hl with hl | ⟨rfl, hl⟩
  · rw [hl, getElem?_setIfInBounds_ne (Nat.ne_of_gt lt)]
  · rw [hl, getElem?_push_lt lt, getElem?_eq_getElem lt]

theorem of_eq (hi : g₁.ifs = g.ifs) (hl : g₁.loops = g.loops) : Keeps ifs loops g g₁ :=
  ⟨fun _ _ => by rw [hi], fun _ _ => by rw [hl]⟩

end Keeps

end Generator

/-! ## Labels by number -/

/-- The label of a number in a program whose labels begin with `stem`. -/
def labelOf (stem : String) (n : Nat) : Label := stem ++ toString n

theorem labelOf_injective {stem : String} {m n : Nat} (h : labelOf stem m = labelOf stem n) :
    m = n := by
  have hs : (toString m : String) = toString n := (String.append_right_inj stem).mp h
  exact Nat.repr_injective hs

theorem LabelTable.reserve_one (t : LabelTable) :
    t.reserve 1 = ([labelOf t.stem t.counter], t.reserveOne.2) := rfl

theorem LabelTable.reserve_two (t : LabelTable) :
    t.reserve 2 = ([labelOf t.stem t.counter, labelOf t.stem (t.counter + 1)],
      t.reserveOne.2.reserveOne.2) := rfl

namespace Emit

open Generator

variable {g g' : Generator} {n : Nat} {l : Label} {id : Nat} {β : Type} {b : IfBlock}

/-- What is written by a step that leaves the tables of branches and loops alone. -/
structure Adds (g : Generator) (code : List Instruction) (n : Nat) (g' : Generator) : Prop
    extends Extends g code n g' where
  ifs : g'.ifs = g.ifs
  loops : g'.loops = g.loops

namespace Adds

variable {g₁ g₂ : Generator} {code₁ code₂ : List Instruction} {n₁ n₂ : Nat}

theorem refl (hn : g.labels.counter = n) : Adds g [] n g := ⟨.refl hn, rfl, rfl⟩

theorem trans (first : Adds g code₁ n₁ g₁) (second : Adds g₁ code₂ n₂ g₂) :
    Adds g (code₁ ++ code₂) n₂ g₂ :=
  ⟨first.toExtends.trans second.toExtends, second.ifs.trans first.ifs,
    second.loops.trans first.loops⟩

theorem pushInstr (hn : g.labels.counter = n) (i : Instruction) : Adds g [i] n (g.pushInstr i) :=
  ⟨.pushInstr hn i, rfl, rfl⟩

theorem foldl_pushInstr (hn : g.labels.counter = n) {code : List Instruction} :
    Adds g code n (code.foldl Generator.pushInstr g) := by
  induction code generalizing g with
  | nil => exact refl hn
  | cons i rest ih => exact (pushInstr hn i).trans (ih hn)

theorem withLabels (t : LabelTable) (stem : t.stem = g.labels.stem) (hn : t.counter = n) :
    Adds g [] n { g with labels := t } :=
  ⟨.withLabels t stem hn, rfl, rfl⟩

end Adds

theorem writes_ifBlock?_bind {id : Option Nat} {k : Option IfBlock → Emit β} {b : β} :
    (ifBlock? id >>= k).Writes g b g' ↔ (k (id.bind (g.ifs[·]?))).Writes g b g' := Iff.rfl

theorem writes_loop?_bind {id : Option Nat} {k : Option Loop → Emit β} {b : β} :
    (loop? id >>= k).Writes g b g' ↔ (k (id.bind (g.loops[·]?))).Writes g b g' := Iff.rfl

section

variable (hn : g.labels.counter = n)
include hn

theorem adds_of_jump {mnemonic : String} {i : Instruction}
    (h : (jump mnemonic l i).Writes g () g') :
    Adds g [i] n g' := by
  obtain ⟨-, s, -, -, rfl⟩ := writes_jump.mp h
  have e : Adds g [] n _ := .withLabels (g.labels.bind l s) rfl hn
  exact e.trans (.pushInstr e.counter i)

theorem adds_of_define (h : (define l).Writes g () g') :
    Adds g [.label l] n g' := by
  obtain ⟨-, s, -, -, -, rfl⟩ := writes_define.mp h
  have e : Adds g [] n _ := .withLabels (g.labels.define l) rfl hn
  exact e.trans (.pushInstr e.counter (.label l))

theorem adds_of_loadBool {b : Bool} (h : (loadBool b).Writes g () g') :
    Adds g [.pushBool b] n g' := by
  obtain ⟨-, rfl⟩ := writes_loadBool.mp h
  exact .pushInstr hn (.pushBool b)

theorem adds_of_printBegin (h : printBegin.Writes g () g') :
    Adds g [.pushStream] n g' := by
  obtain ⟨-, rfl⟩ := writes_printBegin.mp h
  subst hn
  exact ⟨(Extends.pushInstr rfl .pushStream).trans (.withPrints rfl _), rfl, rfl⟩

theorem adds_of_printEnd {kind : Kind} {newline : Bool}
    (h : (printEnd kind newline).Writes g () g') :
    ∃ what, Printed.ofKind? kind = some what ∧ Adds g [.print what newline] n g' := by
  obtain ⟨-, -, what, hw, rfl⟩ := writes_printEnd.mp h
  subst hn
  exact ⟨what, hw, (Extends.withPrints rfl (g.prints - 1)).trans (.pushInstr rfl _), rfl, rfl⟩

/-- The code of a comparison, with its two labels. -/
def relationCode (c : Cond) (truthy join : Label) : List Instruction :=
  [.op .sub, .branch c truthy, .pushBool false, .goto join, .label truthy, .pushBool true,
    .label join]

theorem adds_of_relation {op : Operator} (h : (relation op).Writes g () g') :
    ∃ c, Cond.ofOperator? op = some c ∧
      Adds g (relationCode c (labelOf g.labels.stem n) (labelOf g.labels.stem (n + 1)))
        (n + 2) g' := by
  unfold relation at h
  obtain ⟨-, h⟩ := writes_requireMethod_bind.mp h
  cases hc : Cond.ofOperator? op with
  | none => simp [hc] at h
  | some c =>
    subst hn
    refine ⟨c, rfl, ?_⟩
    simp only [hc] at h
    obtain ⟨-, -, h⟩ := writes_reserve_bind.mp h
    rw [show (2 : Int).toNat = 2 from rfl, LabelTable.reserve_two] at h
    obtain ⟨_, g₁, h₁, h⟩ := writes_bind.mp h
    obtain ⟨_, g₂, h₂, h⟩ := writes_bind.mp h
    obtain ⟨_, g₃, h₃, h⟩ := writes_bind.mp h
    obtain ⟨_, g₄, h₄, h⟩ := writes_bind.mp h
    obtain ⟨_, g₅, h₅, h⟩ := writes_bind.mp h
    obtain ⟨_, g₆, h₆, h₇⟩ := writes_bind.mp h
    have e₁ : Adds g [.op .sub] (g.labels.counter + 2) g₁ := by
      rw [writes_instr.mp h₁]
      exact (Adds.withLabels g.labels.reserveOne.2.reserveOne.2 rfl rfl).trans
        (.pushInstr rfl (.op .sub))
    have e₂ := adds_of_jump e₁.counter h₂
    have e₃ := adds_of_loadBool e₂.counter h₃
    have e₄ := adds_of_jump e₃.counter h₄
    have e₅ := adds_of_define e₄.counter h₅
    have e₆ := adds_of_loadBool e₅.counter h₆
    have e₇ := adds_of_define e₆.counter h₇
    exact e₁.trans (e₂.trans (e₃.trans (e₄.trans (e₅.trans (e₆.trans e₇)))))

/-! ## Branches -/

theorem extends_of_ifBegin (h : ifBegin.Writes g id g') :
    Extends g [.branch .eq (labelOf g.labels.stem n)] (n + 1) g' ∧ id = g.ifs.size ∧
      g'.ifs = g.ifs.push { falseTarget := labelOf g.labels.stem n } ∧ g'.loops = g.loops := by
  unfold ifBegin at h
  obtain ⟨-, h⟩ := writes_requireMethod_bind.mp h
  obtain ⟨-, -, h⟩ := writes_reserve_bind.mp h
  rw [show (1 : Int).toNat = 1 from rfl, LabelTable.reserve_one] at h
  obtain ⟨_, g₁, h₁, h⟩ := writes_bind.mp h
  have e₀ : Adds g [] (n + 1) { g with labels := g.labels.reserveOne.2 } :=
    .withLabels _ rfl (congrArg (· + 1) hn)
  have e₁ := e₀.trans (adds_of_jump e₀.counter h₁)
  simp only [writes_get_bind, writes_modify_bind, writes_pure] at h
  obtain ⟨rfl, rfl⟩ := h
  subst hn
  refine ⟨e₁.toExtends.trans (.withIfs e₁.counter), ?_, ?_, e₁.loops⟩
  · rw [e₁.ifs]
  · show g₁.ifs.push _ = _
    rw [e₁.ifs]

theorem extends_of_otherwise (hb : g.ifs[id]? = some b) (h : (otherwise (some id)).Writes g () g') :
    g'.loops = g.loops ∧
    if g.terminal then
      Extends g [.label b.falseTarget] n g' ∧
        g'.ifs = g.ifs.setIfInBounds id { b with hasElse := true }
    else
      Extends g [.goto (labelOf g.labels.stem n), .label b.falseTarget] (n + 1) g' ∧
        g'.ifs = g.ifs.setIfInBounds id
          { b with hasElse := true, join := some (labelOf g.labels.stem n) } := by
  subst hn
  unfold otherwise at h
  rw [writes_ifBlock?_bind] at h
  simp only [bind_some, hb] at h
  split at h
  · simp at h
  · obtain ⟨-, h⟩ := writes_requireMethod_bind.mp h
    rw [writes_get_bind] at h
    split at h
    · next ht =>
        simp only [ht, if_true]
        rw [setIf, writes_modify_bind] at h
        have e₂ := adds_of_define rfl h
        exact ⟨e₂.loops, (Extends.withIfs rfl).trans e₂.toExtends, e₂.ifs⟩
    · next ht =>
        simp only [ht]
        obtain ⟨-, -, h⟩ := writes_reserve_bind.mp h
        rw [show (1 : Int).toNat = 1 from rfl, LabelTable.reserve_one] at h
        simp only [setIf, writes_modify_bind] at h
        obtain ⟨_, g₂, h₂, h₃⟩ := writes_bind.mp h
        have e₀ : Adds g [] (g.labels.counter + 1) { g with labels := g.labels.reserveOne.2 } :=
          .withLabels _ rfl rfl
        have e₂ := adds_of_jump rfl h₂
        have e₃ := adds_of_define e₂.counter h₃
        exact ⟨e₃.loops.trans e₂.loops,
          e₀.toExtends.trans ((Extends.withIfs rfl).trans (e₂.trans e₃).toExtends),
          e₃.ifs.trans e₂.ifs⟩

theorem extends_of_ifEnd (hb : g.ifs[id]? = some b) (h : (ifEnd (some id)).Writes g () g') :
    Extends g ((if b.hasElse then b.join else some b.falseTarget).toList.map .label) n g' ∧
      g'.ifs = g.ifs.setIfInBounds id { b with closed := true } ∧ g'.loops = g.loops := by
  subst hn
  unfold ifEnd at h
  rw [writes_ifBlock?_bind] at h
  simp only [bind_some, hb] at h
  split at h
  · simp at h
  · rw [setIf, writes_modify_bind] at h
    have e₁ : Extends g [] g.labels.counter
      { g with ifs := g.ifs.setIfInBounds id { b with closed := true } } := .withIfs rfl
    obtain ⟨falseTarget, join, hasElse, closed⟩ := b
    cases hasElse with
    | false =>
      have e₂ := adds_of_define rfl h
      exact ⟨e₁.trans e₂.toExtends, e₂.ifs, e₂.loops⟩
    | true =>
      cases join with
      | none =>
        obtain ⟨-, rfl⟩ := writes_pure.mp h
        exact ⟨e₁, rfl, rfl⟩
      | some join =>
        have e₂ := adds_of_define rfl h
        exact ⟨e₁.trans e₂.toExtends, e₂.ifs, e₂.loops⟩

/-! ## Loops -/

theorem extends_of_loopBegin (h : loopBegin.Writes g id g') :
    Extends g [.label (labelOf g.labels.stem n)] (n + 2) g' ∧ id = g.loops.size ∧
      g'.loops = g.loops.push
        { head := labelOf g.labels.stem n, exit := labelOf g.labels.stem (n + 1) } ∧
      g'.ifs = g.ifs := by
  unfold loopBegin at h
  obtain ⟨-, h⟩ := writes_requireMethod_bind.mp h
  obtain ⟨-, -, h⟩ := writes_reserve_bind.mp h
  rw [show (2 : Int).toNat = 2 from rfl, LabelTable.reserve_two] at h
  obtain ⟨_, g₁, h₁, h⟩ := writes_bind.mp h
  have e₀ : Adds g [] (n + 2) { g with labels := g.labels.reserveOne.2.reserveOne.2 } :=
    .withLabels _ rfl (congrArg (· + 2) hn)
  have e₁ := e₀.trans (adds_of_define e₀.counter h₁)
  simp only [writes_get_bind, writes_modify_bind, writes_pure] at h
  obtain ⟨rfl, rfl⟩ := h
  subst hn
  refine ⟨e₁.toExtends.trans (.withLoops e₁.counter), ?_, ?_, e₁.ifs⟩
  · rw [e₁.loops]
  · show g₁.loops.push _ = _
    rw [e₁.loops]

theorem extends_of_loopTest {l : Loop} (hl : g.loops[id]? = some l)
    (h : (loopTest (some id)).Writes g () g') :
    Extends g [.branch .eq l.exit] n g' ∧
      g'.loops = g.loops.setIfInBounds id { l with tested := true } ∧ g'.ifs = g.ifs := by
  subst hn
  unfold loopTest at h
  rw [writes_loop?_bind] at h
  simp only [bind_some, hl] at h
  split at h
  · simp at h
  · rw [setLoop, writes_modify_bind] at h
    have e₂ := adds_of_jump rfl h
    exact ⟨(Extends.withLoops rfl).trans e₂.toExtends, e₂.loops, e₂.ifs⟩

theorem extends_of_loopEnd {l : Loop} (hl : g.loops[id]? = some l)
    (h : (loopEnd (some id)).Writes g () g') :
    Extends g [.goto l.head, .label l.exit] n g' ∧
      g'.loops = g.loops.setIfInBounds id { l with closed := true } ∧ g'.ifs = g.ifs := by
  subst hn
  unfold loopEnd at h
  rw [writes_loop?_bind] at h
  simp only [bind_some, hl] at h
  split at h
  · simp at h
  · rw [setLoop, writes_modify_bind] at h
    obtain ⟨_, g₂, h₂, h₃⟩ := writes_bind.mp h
    have e₂ := adds_of_jump rfl h₂
    have e := e₂.trans (adds_of_define e₂.counter h₃)
    exact ⟨(Extends.withLoops rfl).trans e.toExtends, e.loops, e.ifs⟩

end

end Emit
end Jasm.Assembly
