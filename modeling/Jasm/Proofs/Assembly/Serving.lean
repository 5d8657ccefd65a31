import Jasm.Proofs.Assembly.Extension
import Jasm.Proofs.Assembly.Labels

/-!
# Steps that are refused only for what they ask

A step can be refused because it comes out of turn or breaks the rules for labels, or because the
target cannot express what it asks for. In the order in which a walk takes them, steps are refused
for the last reason only. `Serves m g P` says this of a step `m` on a program `g`: it is carried out
with the result `P`, or what it asks for is not supported.

For labels this rests on keeping account of those that are still to be defined: `Leaves ls g g'`
says that since `g` the labels `ls` were handed out and not defined yet, that all others handed out
since are defined, and that no label of before has changed.
-/

namespace Jasm.Assembly

open LabelTable List
open Generator (Keeps)

/-- All labels of a table have numbers below its counter. -/
def LabelTable.Counted (t : LabelTable) : Prop :=
  ∀ l s, t.get? l = some s → ∃ n, n < t.counter ∧ l = labelOf t.stem n

theorem LabelTable.Reserved.unknown {t t' : LabelTable} {ls : List Label} (r : t.Reserved ls t')
    (counted : t.Counted) : ∀ l ∈ ls, t.get? l = none := by
  intro l hl
  cases hs : t.get? l with
  | none => rfl
  | some s =>
    obtain ⟨n, hn, rfl⟩ := counted l s hs
    rw [r.labels, mem_map] at hl
    obtain ⟨i, hi, eq⟩ := hl
    have := labelOf_injective eq
    rw [mem_range'_1] at hi
    omega

namespace LabelTable

variable {t : LabelTable} {l : Label} {s : LabelState}

theorem get?_bind_own (known : t.get? l = some s) (own : s.owner = t.current) (l' : Label) :
    (t.bind l s).get? l' = t.get? l' := by
  rw [bind, get?_insert, ← own]
  split
  · next eq => rw [← eq, known]
  · rfl

theorem get?_define (t : LabelTable) (l l' : Label) :
    (t.define l).get? l' = if l = l' then some ⟨true, t.current⟩ else t.get? l' := get?_insert

theorem Counted.insert (h : t.Counted) (known : t.get? l = some s) {s' : LabelState} :
    ({ t with states := t.states.insert l s' } : LabelTable).Counted := by
  intro l' s'' hs
  rw [get?_insert] at hs
  split at hs
  · next eq => exact h l' s (eq ▸ known)
  · exact h l' s'' hs

theorem Counted.reserved {t' : LabelTable} {ls : List Label} (h : t.Counted)
    (r : t.Reserved ls t') : t'.Counted := by
  intro l s hs
  rw [r.counter, r.stem]
  by_cases mem : l ∈ ls
  · rw [r.labels, mem_map] at mem
    obtain ⟨i, hi, rfl⟩ := mem
    rw [mem_range'_1] at hi
    exact ⟨i, hi.2, rfl⟩
  · obtain ⟨n, hn, rfl⟩ := h l s ((r.other l mem).symm.trans hs)
    exact ⟨n, by omega, rfl⟩

theorem length_reserve (t : LabelTable) (n : Nat) : (t.reserve n).1.length = n := by
  induction n generalizing t with
  | zero => rfl
  | succ n ih => exact congrArg (· + 1) (ih t.reserveOne.2)

end LabelTable

/-- The label that the next part of a branch defines, if it has one. -/
def IfBlock.target? (b : IfBlock) : Option Label :=
  if b.hasElse then b.join else some b.falseTarget

namespace Emit

variable {α β : Type} {g g₁ g₂ : Generator}

/-- A step is carried out and `P` holds of its outcome, or it is refused for a reason that `F`
allows: unless we say otherwise, because it asks for something that is not supported. -/
def Serves (m : Emit α) (g : Generator) (P : α → Generator → Prop)
    (F : Fault → Prop := fun f => f.family = .unsupported) : Prop :=
  (∃ a g', m.Writes g a g' ∧ P a g') ∨ ∃ f g', m.run.run g = (.error f, g') ∧ F f

namespace Serves

variable {m m' : Emit α} {k : α → Emit β} {P Q : α → Generator → Prop} {R : β → Generator → Prop}
  {F : Fault → Prop} {f : Generator → Generator} {p : Prop}

theorem of_writes {a : α} (w : m.Writes g a g₁) (h : P a g₁) : Serves m g P F :=
  .inl ⟨a, g₁, w, h⟩

theorem mono (h : Serves m g P F) (weaker : ∀ a g', P a g' → Q a g') : Serves m g Q F := by
  rcases h with ⟨a, g', w, p⟩ | refused
  · exact .inl ⟨a, g', w, weaker a g' p⟩
  · exact .inr refused

theorem pure {a : α} (h : P a g) : Serves (pure a : Emit α) g P F :=
  of_writes (writes_pure.mpr ⟨rfl, rfl⟩) h

theorem writes (h : Serves m g P fun _ => False) : ∃ a g', m.Writes g a g' ∧ P a g' := by
  rcases h with writes | ⟨f, g', -, never⟩
  · exact writes
  · exact never.elim

theorem throw {f : Fault} (h : F f) : Serves (MonadExcept.throw f : Emit α) g P F :=
  .inr ⟨f, g, rfl, h⟩

theorem bind (first : Serves m g P F) (second : ∀ a g', P a g' → Serves (k a) g' R F) :
    Serves (m >>= k) g R F := by
  rcases first with ⟨a, g', w, p⟩ | ⟨f, g', r, h⟩
  · rcases second a g' p with ⟨b, g'', w', q⟩ | ⟨f, g'', r, h⟩
    · exact .inl ⟨b, g'', writes_bind.mpr ⟨a, g', w, w'⟩, q⟩
    · exact .inr ⟨f, g'', (run_bind_of_writes w k).trans r, h⟩
  · exact .inr ⟨f, g', run_bind_of_refused r k, h⟩

theorem get_bind {k : Generator → Emit β} (h : Serves (k g) g R F) :
    Serves ((get : Emit Generator) >>= k) g R F := h

theorem modify {P : PUnit → Generator → Prop} (h : P ⟨⟩ (f g)) :
    Serves (modify f : Emit PUnit) g P F := of_writes (writes_modify.mpr rfl) h

theorem after (first : Serves m g (fun _ g' => g' = g₁) F) (second : ∀ a, Serves (k a) g₁ R F) :
    Serves (m >>= k) g R F := by
  refine bind first ?_
  rintro a _ rfl
  exact second a

theorem modify_bind {k : PUnit → Emit β} (h : Serves (k ⟨⟩) (f g) R F) :
    Serves ((MonadState.modifyGet fun g => (⟨⟩, f g)) >>= k) g R F :=
  after (modify rfl) fun _ => h

theorem requirePhase_bind {ph : Phase} {what : String} {k : Unit → Emit β} (isOpen : ph ≠ .closed)
    (phase : g.phase = ph) (h : Serves (k ()) g R F) : Serves
      (requirePhase ph what >>= k) g R F := by
  have w : (requirePhase ph what >>= fun _ => Pure.pure ()).Writes g () g :=
    (writes_requirePhase_bind isOpen).mpr ⟨phase, writes_pure.mpr ⟨rfl, rfl⟩⟩
  obtain ⟨a, g', w₁, w₂⟩ := writes_bind.mp w
  obtain ⟨-, rfl⟩ := writes_pure.mp w₂
  exact after (of_writes w₁ rfl) fun _ => h

theorem instr {i : Instruction} {P : Unit → Generator → Prop} (h : P () (g.pushInstr i)) :
    Serves (Emit.instr i) g P F := modify h

end Serves

theorem writes_define_own {l : Label} (phase : g.phase = .method)
    (pending : g.labels.get? l = some ⟨false, g.labels.current⟩) :
    (define l).Writes g () ({ g with labels := g.labels.define l }.pushInstr (.label l)) :=
  writes_define.mpr ⟨phase, _, pending, rfl, by simp [isUsable], rfl⟩

theorem writes_jump_own {mnemonic : String} {l : Label} {i : Instruction}
    {s : LabelState} (phase : g.phase = .method) (known : g.labels.get? l = some s)
    (own : s.owner = g.labels.current) :
    (jump mnemonic l i).Writes g () ({ g with labels := g.labels.bind l s }.pushInstr i) :=
  writes_jump.mpr ⟨phase, s, known, by simp [isUsable, own], rfl⟩

/-! ## Labels that are still to be defined -/

/-- Between two points of a method: the labels `ls` were handed out and are still to be defined, all
others handed out since are defined, and nothing of before has changed. -/
structure Leaves (ls : List Label) (g g' : Generator) : Prop where
  phase : g'.phase = .method
  method : g'.method = g.method
  prints : g'.prints = g.prints
  current : g'.labels.current = g.labels.current
  counted : g'.labels.Counted
  old : ∀ l s, g.labels.get? l = some s → g'.labels.get? l = some s
  new : ∀ l s, g'.labels.get? l = some s → g.labels.get? l = some s ∨ s.defined ∨ l ∈ ls
  pending : ∀ l ∈ ls, g.labels.get? l = none ∧
    g'.labels.get? l = some ⟨false, g.labels.current⟩
  keeps : Keeps g.ifs.size g.loops.size g g'

/-- All labels handed out between two points of a method are defined. -/
abbrev Settles (g g' : Generator) : Prop := Leaves [] g g'

namespace Leaves

variable {ls : List Label} {l : Label}

theorem refl (phase : g.phase = .method) (counted : g.labels.Counted) : Settles g g :=
  ⟨phase, rfl, rfl, rfl, counted, fun _ _ h => h, fun _ _ h => .inl h, by simp, .refl⟩

theorem congr (h : Leaves ls g g₁) (phase : g₂.phase = g₁.phase) (method : g₂.method = g₁.method)
    (prints : g₂.prints = g₁.prints) (labels : g₂.labels = g₁.labels)
    (keeps : Keeps g.ifs.size g.loops.size g₁ g₂) : Leaves ls g g₂ := by
  obtain ⟨phase', method', prints', current, counted, old, new, pending, keeps'⟩ := h
  rw [← labels] at current counted old new pending
  exact ⟨phase.trans phase', method.trans method', prints.trans prints', current, counted, old,
    new, pending, keeps'.trans keeps⟩

theorem pushInstr (h : Leaves ls g g₁) {i : Instruction} : Leaves ls g (g₁.pushInstr i) :=
  h.congr rfl rfl rfl rfl (.of_eq rfl rfl)

theorem trans (first : Leaves ls g g₁) (second : Settles g₁ g₂) : Leaves ls g g₂ where
  phase := second.phase
  method := second.method.trans first.method
  prints := second.prints.trans first.prints
  current := second.current.trans first.current
  counted := second.counted
  old l s h := second.old l s (first.old l s h)
  new l s h := by
    rcases second.new l s h with h | h | h
    · exact first.new l s h
    · exact .inr (.inl h)
    · cases h
  pending l hl := ⟨(first.pending l hl).1, second.old l _ (first.pending l hl).2⟩
  keeps := first.keeps.trans (second.keeps.mono first.keeps.size_le.1 first.keeps.size_le.2)

theorem reserve (h : Leaves ls g g₁) {new : List Label} {t : LabelTable}
    (r : g₁.labels.Reserved new t) : Leaves (ls ++ new) g { g₁ with labels := t } := by
  have fresh := r.unknown h.counted
  refine ⟨h.phase, h.method, h.prints, r.current.trans h.current, h.counted.reserved r, ?_, ?_, ?_,
    h.keeps.trans (.of_eq rfl rfl)⟩
  · intro l s hs
    have known := h.old l s hs
    have hl : l ∉ new := fun hl => by rw [fresh l hl] at known; cases known
    exact (r.other l hl).trans known
  · intro l s hs
    by_cases hl : l ∈ new
    · exact .inr (.inr (mem_append_right _ hl))
    · rcases h.new l s ((r.other l hl).symm.trans hs) with h | h | h
      · exact .inl h
      · exact .inr (.inl h)
      · exact .inr (.inr (mem_append_left _ h))
  · intro l hl
    rcases mem_append.mp hl with hl | hl
    · obtain ⟨unknown, state⟩ := h.pending l hl
      have hl : l ∉ new := fun hl => by rw [fresh l hl] at state; cases state
      exact ⟨unknown, (r.other l hl).trans state⟩
    · refine ⟨?_, (r.fresh l hl).trans (by rw [h.current])⟩
      cases hs : g.labels.get? l with
      | none => rfl
      | some s =>
        have known := h.old l s hs
        rw [fresh l hl] at known
        cases known

theorem insert (h : Leaves ls g g₁) {s : LabelState} {ls' : List Label}
    (unknown : g.labels.get? l = none) {s₀ : LabelState} (known : g₁.labels.get? l = some s₀)
    (state : s.defined ∨ l ∈ ls') (kept : ∀ l' ∈ ls, l' = l ∨ l' ∈ ls')
    (rest : ∀ l' ∈ ls', l' ∈ ls ∧ (l' = l → s = ⟨false, g.labels.current⟩)) :
    Leaves ls' g { g₁ with
      labels := { g₁.labels with states := g₁.labels.states.insert l s } } := by
  refine ⟨h.phase, h.method, h.prints, h.current, h.counted.insert known, ?_, ?_, ?_,
    h.keeps.trans (.of_eq rfl rfl)⟩
  · intro l' s' hs'
    rw [get?_insert, if_neg fun eq => by rw [← eq, unknown] at hs'; cases hs']
    exact h.old l' s' hs'
  · intro l' s' hs'
    rw [get?_insert] at hs'
    split at hs'
    · next eq =>
        cases hs'
        exact .inr (eq ▸ state)
    · next ne =>
        rcases h.new l' s' hs' with h | h | h
        · exact .inl h
        · exact .inr (.inl h)
        · exact .inr (.inr ((kept l' h).resolve_left fun eq => ne eq.symm))
  · intro l' hl'
    obtain ⟨mem, same⟩ := rest l' hl'
    obtain ⟨unknown', state'⟩ := h.pending l' mem
    refine ⟨unknown', ?_⟩
    rw [get?_insert]
    split
    · next eq => rw [same eq.symm]
    · exact state'

end Leaves

/-! ## Single steps inside a method -/

section

variable {g' : Generator} {ls : List Label} {l : Label} {F : Fault → Prop} {mnemonic : String}
  {i : Instruction}

/-- What a step inside a method may change, if the tables of branches and loops stay. -/
structure Moves (ls : List Label) (g g₁ g₂ : Generator) : Prop extends Leaves ls g g₂ where
  ifs : g₂.ifs = g₁.ifs
  loops : g₂.loops = g₁.loops

/-- Labels that are handed out are new, and still to be defined. -/
theorem serves_reserve {n : Int} (h : Leaves ls g g₁) (pos : 0 < n) :
    Serves (reserve n) g₁ (fun new g₂ => new.length = n.toNat ∧ new.Nodup ∧ (∀ l ∈ ls, l ∉ new) ∧
      Moves (ls ++ new) g g₁ g₂) F := by
  have r := reserved_reserve g₁.labels n.toNat
  refine .of_writes (a := (g₁.labels.reserve n.toNat).1) (?_ : Writes _ _ _
    { g₁ with labels := (g₁.labels.reserve n.toNat).2 }) ⟨?_, ?_, ?_, h.reserve r, rfl, rfl⟩
  · exact writes_reserve.mpr ⟨by simp [h.phase], pos, rfl, rfl⟩
  · exact length_reserve _ _
  · rw [r.labels]
    refine pairwise_map.mpr (List.Pairwise.imp (fun ne eq => ne ?_) nodup_range')
    exact labelOf_injective eq
  · intro l old new
    have known := (h.pending l old).2
    rw [r.unknown h.counted l new] at known
    cases known

theorem serves_jump_own {s : LabelState} (h : Leaves ls g g₁) (known : g₁.labels.get? l = some s)
    (own : s.owner = g₁.labels.current) :
    Serves (jump mnemonic l i) g₁ (fun _ g₂ => Moves ls g g₁ g₂) F := by
  have same := get?_bind_own known own
  have settled : Settles g₁ { g₁ with labels := g₁.labels.bind l s } :=
    ⟨h.phase, rfl, rfl, rfl, h.counted.insert known, fun l' s' h => (same l').trans h,
      fun l' s' h => .inl ((same l').symm.trans h), by simp, .of_eq rfl rfl⟩
  exact .of_writes (writes_jump_own h.phase known own) ⟨h.trans settled.pushInstr, rfl, rfl⟩

/-- A jump to a label that is still to be defined. -/
theorem serves_jump (h : Leaves ls g g₁) (mem : l ∈ ls) :
    Serves (jump mnemonic l i) g₁ (fun _ g₂ => Moves ls g g₁ g₂) F :=
  serves_jump_own h (h.pending l mem).2 h.current.symm

/-- Defining a label takes it from the account. -/
theorem serves_define (h : Leaves (l :: ls) g g₁) (distinct : l ∉ ls) :
    Serves (define l) g₁ (fun _ g₂ => Moves ls g g₁ g₂ ∧
      g₂.labels.get? l = some ⟨true, g.labels.current⟩) F := by
  obtain ⟨unknown, state⟩ := h.pending l (by simp)
  refine .of_writes (writes_define_own h.phase (h.current ▸ state)) ⟨⟨?_, rfl, rfl⟩, ?_⟩
  · exact Leaves.pushInstr (h.insert unknown state (.inl rfl)
      (fun l' hl' => mem_cons.mp hl')
      fun l' hl' => ⟨mem_cons_of_mem _ hl', fun eq => absurd (eq ▸ hl') distinct⟩)
  · show (g₁.labels.define l).get? l = _
    rw [LabelTable.define, get?_insert, if_pos rfl, h.current]

theorem serves_instr {what : String} (h : Leaves ls g g₁) :
    Serves (requirePhase .method what >>= fun _ => instr i) g₁ (fun _ => Leaves ls g) F :=
  .requirePhase_bind (by decide) h.phase (.instr h.pushInstr)

end

/-! ## Expressions -/

section

variable {g₀ : Generator} (h : Settles g₀ g)

include h

theorem serves_relation {op : Operator} {F : Fault → Prop}
    (allowed : Cond.ofOperator? op = none → F (.notRelational op)) :
    Serves (relation op) g (fun _ => Settles g₀) F := by
  refine .requirePhase_bind (by decide) h.phase ?_
  cases hc : Cond.ofOperator? op with
  | none => exact .throw (allowed hc)
  | some c =>
    refine .bind (serves_reserve h (by decide)) ?_
    rintro new g₁ ⟨length, nodup, -, h₁⟩
    obtain ⟨truthy, join, rfl⟩ := length_eq_two.mp length
    have distinct : truthy ∉ [join] := (nodup_cons.mp nodup).1
    refine .bind (P := fun _ => Leaves [truthy, join] g₀)
      (.instr h₁.toLeaves.pushInstr) fun _ g₂ h₂ => ?_
    refine .bind (serves_jump h₂ (by simp)) fun _ g₃ h₃ => ?_
    refine .bind (serves_instr h₃.toLeaves) fun _ g₄ h₄ => ?_
    refine .bind (serves_jump h₄ (by simp)) fun _ g₅ h₅ => ?_
    refine .bind (serves_define h₅.toLeaves distinct) fun _ g₆ h₆ => ?_
    refine .bind (serves_instr h₆.1.toLeaves) fun _ g₇ h₇ => ?_
    exact (serves_define h₇ (by simp)).mono fun _ _ h => h.1.toLeaves

omit h in
omit h in
/-! ## Simple statements -/

end

/-! ## Branches -/

section

variable {g' : Generator} {id : Nat} {b : IfBlock}

/-- Inside of a branch that began at `g`: its next label is still to be defined, and its entry is
open. -/
structure Branching (id : Nat) (b : IfBlock) (g g' : Generator) : Prop where
  leaves : Leaves b.target?.toList g g'
  entry : g'.ifs[id]? = some b
  isOpen : b.closed = false
  new : g.ifs.size ≤ id

theorem serves_ifBegin {F : Fault → Prop} (phase : g.phase = .method)
    (counted : g.labels.Counted) :
    Serves ifBegin g (fun id g' => ∃ l, Branching id { falseTarget := l } g g') F := by
  refine .requirePhase_bind (by decide) phase ?_
  refine .bind (serves_reserve (.refl phase counted) (by decide)) ?_
  rintro new g₁ ⟨length, -, -, h₁⟩
  obtain ⟨l, rfl⟩ := length_eq_one_iff.mp length
  refine .bind (serves_jump h₁.toLeaves (by simp)) fun _ g₂ h₂ => ?_
  have same : g₂.ifs = g.ifs := h₂.ifs.trans h₁.ifs
  refine .get_bind (.modify_bind (.pure ?_))
  refine ⟨l, ?_, by simp, rfl, Nat.le_of_eq (by rw [same])⟩
  have leaves : Leaves [l] g g₂ := h₂.toLeaves
  refine leaves.congr rfl rfl rfl rfl ?_
  rw [← same]
  exact .of_ifs rfl (.inr ⟨rfl, rfl⟩)

end

/-! ## Loops -/

section

variable {id : Nat} {l : Loop}

/-- Inside of a loop that began at `g`: its head is defined, its exit is still to be, and its entry
is open. -/
structure Looping (id : Nat) (l : Loop) (g g' : Generator) : Prop where
  leaves : Leaves [l.exit] g g'
  head : g.labels.get? l.head = none ∧ g'.labels.get? l.head = some ⟨true, g.labels.current⟩
  entry : g'.loops[id]? = some l
  isOpen : l.closed = false
  new : g.loops.size ≤ id

theorem serves_loopBegin {F : Fault → Prop} (phase : g.phase = .method)
    (counted : g.labels.Counted) :
    Serves loopBegin g (fun id g' => ∃ l, l.tested = false ∧ Looping id l g g') F := by
  refine .requirePhase_bind (by decide) phase ?_
  refine .bind (serves_reserve (.refl phase counted) (by decide)) ?_
  rintro new g₁ ⟨length, nodup, -, h₁⟩
  obtain ⟨head, exit, rfl⟩ := length_eq_two.mp length
  refine .bind (serves_define h₁.toLeaves (nodup_cons.mp nodup).1) ?_
  rintro _ g₂ ⟨h₂, defined⟩
  have same : g₂.loops = g.loops := h₂.loops.trans h₁.loops
  refine .get_bind (.modify_bind (.pure ?_))
  refine ⟨{ head, exit }, rfl, ?_, ⟨(h₁.pending head (by simp)).1, defined⟩, by simp, rfl,
    Nat.le_of_eq (by rw [same])⟩
  refine h₂.toLeaves.congr rfl rfl rfl rfl ?_
  rw [← same]
  exact .of_loops rfl (.inr ⟨rfl, rfl⟩)

end

/-! ## Methods and the class -/

end Emit

end Jasm.Assembly
