import Jasm.Proofs.Assembly.Serving

/-!
# Labels that branches and loops are still to define

A branch or a loop that is open has a label that is still to be defined. The method it stands in
cannot end before that, and nobody else defines the label, as long as a client leaves the labels
alone that branches and loops reserved for themselves. `Pledged` says this of all open branches and
loops.

`Spares` says of a step that it keeps all pledges, and that the program is what it was if the step
is refused. Steps that have nothing to do with labels are of this sort, and its rules follow the way
in which steps are put together.
-/

namespace Jasm.Assembly

/-- A branch or a loop, by its position in its table. -/
inductive Handle where
  | branch (id : Nat)
  | loop (id : Nat)
  deriving DecidableEq

/-- The label that a branch still has to define, if it is open. -/
def IfBlock.pledge? (b : IfBlock) : Option Label := if b.closed then none else b.target?

/-- The label that a loop still has to define, if it is open. -/
def Loop.pledge? (l : Loop) : Option Label := if l.closed then none else some l.exit

namespace LabelTable

variable {t : LabelTable} {l : Label}

theorem Counted.next (h : t.Counted) : t.get? (labelOf t.stem t.counter) = none :=
  (t.reserved_reserve 1).unknown h _ (by rw [reserve_one]; simp)

theorem Counted.pending (h : t.Counted) {owner : Nat} (known : t.get? l = some ⟨false, owner⟩) :
    l ∈ t.pending := by
  obtain ⟨n, hn, rfl⟩ := h l _ known
  refine List.mem_filter.mpr ⟨List.mem_map.mpr ⟨n, List.mem_range.mpr hn, rfl⟩, ?_⟩
  simp [isPending, known]

end LabelTable

namespace Generator

variable {g g' : Generator} {ls ls' : List Label}

/-- The label that a branch or a loop still has to define. -/
def pledge? (g : Generator) : Handle → Option Label
  | .branch id => g.ifs[id]?.bind IfBlock.pledge?
  | .loop id => g.loops[id]?.bind Loop.pledge?

/-- Every open branch and every open loop stands in the open method and can be ended: its label is
one of `ls`, is not defined and belongs to no other branch or loop. -/
structure Pledged (ls : List Label) (g : Generator) : Prop where
  counted : g.labels.Counted
  own : ∀ h l, g.pledge? h = some l → l ∈ ls
  pending : ∀ h l, g.pledge? h = some l → g.labels.get? l = some ⟨false, g.labels.current⟩
  distinct : ∀ h h' l, g.pledge? h = some l → g.pledge? h' = some l → h = h'
  inside : ∀ h l, g.pledge? h = some l → g.phase = .method ∨ g.phase = .closed
  head : ∀ (id : Nat) (l : Loop), g.loops[id]? = some l → l.closed = false →
    g.labels.get? l.head = some ⟨true, g.labels.current⟩
  /-- A branch knows where its parts meet only behind its first part. -/
  join : ∀ (id : Nat) (b : IfBlock), g.ifs[id]? = some b → b.hasElse = false → b.join = none

theorem pledge?_congr (ifs : g'.ifs = g.ifs) (loops : g'.loops = g.loops) (a : Handle) :
    g'.pledge? a = g.pledge? a := by
  cases a <;> simp [pledge?, ifs, loops]

namespace Pledged

theorem of_none (idle : ∀ a, g.pledge? a = none) (counted : g.labels.Counted)
    (join : ∀ (id : Nat) (b : IfBlock), g.ifs[id]? = some b → b.hasElse = false → b.join = none) :
    Pledged ls g := by
  have never {p : Prop} {a : Handle} {l : Label} (ha : g.pledge? a = some l) : p := by
    simp [idle] at ha
  refine ⟨counted, fun _ _ => never, fun _ _ => never, fun _ _ _ ha => never ha, fun _ _ => never,
    fun id l hl isOpen => ?_, join⟩
  refine never (a := .loop id) (l := l.exit) ?_
  simp [pledge?, hl, Loop.pledge?, isOpen]

variable (h : Pledged ls g)
include h

theorem mono (sub : ls ⊆ ls') : Pledged ls' g :=
  { h with own := fun a l hl => sub (h.own a l hl) }

theorem none_open (method : g.phase ≠ .method) (closed : g.phase ≠ .closed) (a : Handle) :
    g.pledge? a = none := by
  cases ha : g.pledge? a with
  | none => rfl
  | some l =>
    rcases h.inside a l ha with phase | phase
    · exact absurd phase method
    · exact absurd phase closed

theorem keep (ifs : g'.ifs = g.ifs) (loops : g'.loops = g.loops) (counted : g'.labels.Counted)
    (current : g'.labels.current = g.labels.current)
    (phase : g'.phase = g.phase ∨ g'.phase = .closed)
    (kept : ∀ l s, g.labels.get? l = some s → s.owner = g.labels.current → s.defined ∨ l ∈ ls →
      g'.labels.get? l = some s) :
    Pledged ls g' := by
  have same := pledge?_congr ifs loops
  refine ⟨counted, ?_, ?_, ?_, ?_, ?_, fun id b hb => h.join id b (ifs ▸ hb)⟩
  · intro a l ha
    exact h.own a l (same a ▸ ha)
  · intro a l ha
    rw [same] at ha
    rw [current]
    exact kept l _ (h.pending a l ha) rfl (.inr (h.own a l ha))
  · intro a a' l ha ha'
    rw [same] at ha ha'
    exact h.distinct a a' l ha ha'
  · intro a l ha
    rw [same] at ha
    rcases phase with phase | phase
    · rw [phase]
      exact h.inside a l ha
    · exact .inr phase
  · intro id l hl isOpen
    rw [loops] at hl
    rw [current]
    exact kept _ _ (h.head id l hl isOpen) rfl (.inl rfl)

/-- A call about one branch or loop keeps the pledges of all others. -/
theorem update {a : Handle} (sub : ls ⊆ ls') (counted : g'.labels.Counted)
    (current : g'.labels.current = g.labels.current) (phase : g'.phase = g.phase)
    (others : ∀ a', a' ≠ a → g'.pledge? a' = g.pledge? a')
    (kept : ∀ a' l, a' ≠ a → g.pledge? a' = some l → g'.labels.get? l = g.labels.get? l)
    (new : ∀ l, g'.pledge? a = some l → l ∈ ls' ∧ (g.phase = .method ∨ g.phase = .closed) ∧
      g'.labels.get? l = some ⟨false, g.labels.current⟩ ∧ ∀ a', a' ≠ a → g.pledge? a' ≠ some l)
    (head : ∀ (id : Nat) (l : Loop), g'.loops[id]? = some l → l.closed = false →
      g'.labels.get? l.head = some ⟨true, g.labels.current⟩)
    (join : ∀ (id : Nat) (b : IfBlock), g'.ifs[id]? = some b → b.hasElse = false → b.join = none) :
    Pledged ls' g' := by
  have cases {p : Handle → Label → Prop} (old : ∀ a' l, a' ≠ a → g.pledge? a' = some l → p a' l)
      (this : ∀ l, g'.pledge? a = some l → p a l) : ∀ a' l, g'.pledge? a' = some l → p a' l := by
    intro a' l ha'
    by_cases eq : a' = a
    · subst eq
      exact this l ha'
    · exact old a' l eq (others a' eq ▸ ha')
  refine ⟨counted, ?_, ?_, ?_, ?_, ?_, join⟩
  · exact cases (fun a' l _ ha' => sub (h.own a' l ha')) fun l ha => (new l ha).1
  · rw [current]
    refine cases (fun a' l ne ha' => ?_) fun l ha => (new l ha).2.2.1
    rw [kept a' l ne ha']
    exact h.pending a' l ha'
  · intro a₁ a₂ l h₁ h₂
    by_cases eq₁ : a₁ = a
    · subst eq₁
      by_cases eq₂ : a₂ = a₁
      · exact eq₂.symm
      · exact absurd (others a₂ eq₂ ▸ h₂) ((new l h₁).2.2.2 a₂ eq₂)
    · rw [others a₁ eq₁] at h₁
      by_cases eq₂ : a₂ = a
      · subst eq₂
        exact absurd h₁ ((new l h₂).2.2.2 a₁ eq₁)
      · rw [others a₂ eq₂] at h₂
        exact h.distinct a₁ a₂ l h₁ h₂
  · rw [phase]
    exact cases (fun a' l _ ha' => h.inside a' l ha') fun l ha => (new l ha).2.1
  · rw [current]
    exact head

theorem unpledged {l : Label} (unknown : g.labels.get? l = none) {a : Handle} :
    g.pledge? a ≠ some l := by
  intro ha
  have known := h.pending a l ha
  rw [unknown] at known
  cases known

theorem get?_define_other {a a' : Handle} {l l' : Label} (ne : a' ≠ a) (ha : g.pledge? a = some l)
    (ha' : g.pledge? a' = some l') :
    (g.labels.define l).get? l' = g.labels.get? l' := by
  rw [LabelTable.get?_define, if_neg]
  rintro rfl
  exact ne (h.distinct a' a l ha' ha)

theorem get?_define_head {l : Label} {owner id : Nat} {e : Loop}
    (undefined : g.labels.get? l = some ⟨false, owner⟩) (entry : g.loops[id]? = some e)
    (isOpen : e.closed = false) :
    (g.labels.define l).get? e.head = some ⟨true, g.labels.current⟩ := by
  have head := h.head id e entry isOpen
  rw [LabelTable.get?_define, if_neg]
  · exact head
  · rintro rfl
    rw [undefined] at head
    cases head

end Pledged

theorem pledged_new {cls : String} {o : Options} : Pledged ls (.new cls o) := by
  refine .of_none (fun a => ?_) (fun l s hs => ?_) fun id b hb => ?_
  · cases a <;> simp [pledge?, Generator.new]
  · simp [Generator.new, LabelTable.get?] at hs
  · simp [Generator.new] at hb

/-! ## Changes to the tables -/

theorem getElem?_set_of_some {γ : Type} {t : Array γ} {id : Nat} {x y : γ}
    (entry : t[id]? = some x) {i : Nat} :
    (t.setIfInBounds id y)[i]? = if i = id then some y else t[i]? := by
  have lt := (Array.getElem?_eq_some_iff.mp entry).1
  simp only [Array.getElem?_setIfInBounds, lt, if_true, eq_comm]

theorem pledge?_alterIf {id : Nat} {b : IfBlock}
    (ifs : ∀ i, g'.ifs[i]? = if i = id then some b else g.ifs[i]?) (loops : g'.loops = g.loops) :
    g'.pledge? (.branch id) = b.pledge? ∧ ∀ a, a ≠ .branch id → g'.pledge? a = g.pledge? a := by
  refine ⟨by simp [pledge?, ifs], fun a ne => ?_⟩
  cases a with
  | loop i => simp [pledge?, loops]
  | branch i =>
    have other : i ≠ id := fun eq => ne (congrArg _ eq)
    simp [pledge?, ifs, other]

theorem pledge?_alterLoop {id : Nat} {e : Loop}
    (loops : ∀ i, g'.loops[i]? = if i = id then some e else g.loops[i]?) (ifs : g'.ifs = g.ifs) :
    g'.pledge? (.loop id) = e.pledge? ∧ ∀ a, a ≠ .loop id → g'.pledge? a = g.pledge? a := by
  refine ⟨by simp [pledge?, loops], fun a ne => ?_⟩
  cases a with
  | branch i => simp [pledge?, ifs]
  | loop i =>
    have other : i ≠ id := fun eq => ne (congrArg _ eq)
    simp [pledge?, loops, other]

namespace Pledged

variable (h : Pledged ls g)
include h

theorem setIf {id : Nat} {b b' : IfBlock} (entry : g.ifs[id]? = some b)
    (ifs : g'.ifs = g.ifs.setIfInBounds id b') (loops : g'.loops = g.loops)
    (counted : g'.labels.Counted) (current : g'.labels.current = g.labels.current)
    (phase : g'.phase = g.phase) (sub : ls ⊆ ls')
    (kept : ∀ a l, a ≠ .branch id → g.pledge? a = some l → g'.labels.get? l = g.labels.get? l)
    (heads : ∀ (i : Nat) (e : Loop), g.loops[i]? = some e → e.closed = false →
      g'.labels.get? e.head = some ⟨true, g.labels.current⟩)
    (new : ∀ l, b'.pledge? = some l → l ∈ ls' ∧ (g.phase = .method ∨ g.phase = .closed) ∧
      g'.labels.get? l = some ⟨false, g.labels.current⟩ ∧ ∀ a, a ≠ .branch id →
        g.pledge? a ≠ some l)
    (join : b'.hasElse = false → b'.join = none) : Pledged ls' g' := by
  have table i : g'.ifs[i]? = if i = id then some b' else g.ifs[i]? :=
    ifs ▸ getElem?_set_of_some entry
  obtain ⟨this, others⟩ := pledge?_alterIf table loops
  refine h.update sub counted current phase others kept (fun l hl => new l (this ▸ hl))
    (fun i e he => heads i e (loops ▸ he)) fun i x hx first => ?_
  rw [table] at hx
  split at hx
  · cases hx
    exact join first
  · exact h.join i x hx first

theorem setLoop {id : Nat} {e e' : Loop} (entry : g.loops[id]? = some e) (isOpen : e.closed = false)
    (loops : g'.loops = g.loops.setIfInBounds id e') (ifs : g'.ifs = g.ifs)
    (counted : g'.labels.Counted) (current : g'.labels.current = g.labels.current)
    (phase : g'.phase = g.phase)
    (kept : ∀ a l, a ≠ .loop id → g.pledge? a = some l → g'.labels.get? l = g.labels.get? l)
    (heads : ∀ (i : Nat) (x : Loop), g.loops[i]? = some x → x.closed = false →
      g'.labels.get? x.head = some ⟨true, g.labels.current⟩)
    (new : ∀ l, e'.pledge? = some l → g.pledge? (.loop id) = some l ∧
      g'.labels.get? l = g.labels.get? l)
    (head : e'.head = e.head) : Pledged ls g' := by
  have table i : g'.loops[i]? = if i = id then some e' else g.loops[i]? :=
    loops ▸ getElem?_set_of_some entry
  obtain ⟨this, others⟩ := pledge?_alterLoop table ifs
  refine h.update (List.Subset.refl _) counted current phase others kept ?_ ?_
    fun i b hb => h.join i b (ifs ▸ hb)
  · intro l hl
    obtain ⟨before, same⟩ := new l (this ▸ hl)
    refine ⟨h.own _ l before, h.inside _ l before, same.trans (h.pending _ l before), ?_⟩
    intro a ne ha
    exact ne (h.distinct a _ l ha before)
  · intro i x hx xOpen
    rw [table] at hx
    split at hx
    · cases hx
      rw [head]
      exact heads id e entry isOpen
    · exact heads i x hx xOpen

end Pledged

end Generator

/-! ## Steps that have nothing to do with labels -/

namespace Emit

open Generator

variable {α β : Type} {g g' : Generator}

/-- A step that is carried out leaves the labels, the phase and the tables alone. -/
def Still (m : Emit α) : Prop :=
  ∀ g a g', m.Writes g a g' →
    g'.labels = g.labels ∧ g'.phase = g.phase ∧ g'.ifs = g.ifs ∧ g'.loops = g.loops

theorem Plain.stays {S : Nat → Prop} {m : Emit α} (h : ∀ g, Plain S m g) : Still m := by
  intro g a g' w
  obtain ⟨labels, ifs, loops⟩ := (h g).still
  have phase := (h g).inside.phase
  rw [w] at labels ifs loops phase
  exact ⟨labels, phase, ifs, loops⟩

theorem still_declareGlobal {id : String} {kind : Kind} : Still (declareGlobal id kind) := by
  intro g a g' w
  obtain ⟨-, -, rfl⟩ := writes_declareGlobal.mp w
  exact ⟨rfl, rfl, rfl, rfl⟩

theorem still_declareGlobalInit {id : String} (v : Value) : Still (declareGlobalInit id v) := by
  intro g a g' w
  obtain ⟨-, -, n, -, rfl⟩ := writes_declareGlobalInit.mp w
  exact ⟨rfl, rfl, rfl, rfl⟩

theorem still_printBegin : Still printBegin := by
  intro g a g' w
  obtain ⟨-, rfl⟩ := writes_printBegin.mp w
  exact ⟨rfl, rfl, rfl, rfl⟩

theorem still_printEnd {kind : Kind} {newline : Bool} : Still (printEnd kind newline) := by
  intro g a g' w
  obtain ⟨-, -, what, -, rfl⟩ := writes_printEnd.mp w
  exact ⟨rfl, rfl, rfl, rfl⟩

/-! ## What a call does to pledges -/

/-- Nothing of a program has changed but the notes about branches and loops, and while it is not
closed not even these. -/
def Untouched (g g' : Generator) : Prop :=
  g' = { g with ifs := g'.ifs, loops := g'.loops } ∧ (g.phase ≠ .closed → g' = g)

theorem Untouched.refl {g : Generator} : Untouched g g := ⟨rfl, fun _ => rfl⟩

/-- A step keeps all pledges, and if it is refused the program is what it was. The labels that
branches and loops have reserved may depend on the program after the step. -/
structure Spares (ls : Generator → List Label) (m : Emit α) (g : Generator) : Prop where
  carried : ∀ a g', m.Writes g a g' → Pledged (ls g') g'
  refused : ∀ f g', m.run.run g = (.error f, g') → Pledged (ls g') g' ∧ Untouched g g'

namespace Spares

variable {ls ls' : Generator → List Label} {own : List Label} {m : Emit α} {f : Fault}
  {k : Unit → Emit β}

theorem of_atomic (h : Pledged (ls g) g) (atomic : Atomic (fun _ => True) m)
    (carried : ∀ a g', m.Writes g a g' → Pledged (ls g') g') : Spares ls m g := by
  refine ⟨carried, fun f g' r => ?_⟩
  rw [atomic.refused g f g' r]
  exact ⟨h, .refl⟩

theorem of_still (h : Pledged own g) (atomic : Atomic (fun _ => True) m) (still : Still m) :
    Spares (fun _ => own) m g := by
  refine of_atomic h atomic fun a g' w => ?_
  obtain ⟨labels, phase, ifs, loops⟩ := still g a g' w
  refine h.keep ifs loops ?_ (by rw [labels]) (.inl phase) ?_
  · rw [labels]
    exact h.counted
  · intro l s hs _ _
    rw [labels]
    exact hs

theorem of_writes {a : α} (w : m.Writes g a g') (h : Pledged (ls g') g') :
    Spares ls m g := by
  constructor
  · intro b g₁ w₁
    cases w.symm.trans w₁
    exact h
  · intro f g₁ r
    cases w.symm.trans r

theorem of_refused (r : m.run.run g = (.error f, g')) (h : Pledged (ls g') g')
    (same : Untouched g g') : Spares ls m g := by
  constructor
  · intro b g₁ w₁
    cases r.symm.trans w₁
  · intro f g₁ r₁
    cases r.symm.trans r₁
    exact ⟨h, same⟩

theorem throw (h : Pledged (ls g) g) : Spares ls (MonadExcept.throw f : Emit α) g :=
  of_refused rfl h .refl

theorem get_bind {k : Generator → Emit β} (h : Spares ls (k g) g) :
    Spares ls ((get : Emit Generator) >>= k) g := ⟨h.carried, h.refused⟩

theorem ite {c : Prop} [Decidable c] {m' : Emit α} (yes : c → Spares ls m g)
    (no : ¬ c → Spares ls m' g) : Spares ls (if c then m else m') g := by
  split
  · next h => exact yes h
  · next h => exact no h

theorem guard {c : Prop} [Decidable c] (h : Pledged (ls g) g) (hk : ¬ c → Spares ls (k ()) g) :
    Spares ls (if c then MonadExcept.throw f >>= k else k ()) g :=
  ite (fun _ => of_refused rfl h .refl) hk

theorem check_bind {k : α → Emit β} (h : Pledged (ls g) g) (checks : Checks m)
    (hk : ∀ a, m.Writes g a g → Spares ls (k a) g) : Spares ls (m >>= k) g := by
  have same := checks.same g
  rcases writes_or_refused m g with ⟨a, w⟩ | ⟨f, r⟩
  · rw [same] at w
    have spares := hk a w
    constructor
    · intro b g' w'
      exact spares.carried b g' ((run_bind_of_writes w k).symm.trans w')
    · intro f g' r
      exact spares.refused f g' ((run_bind_of_writes w k).symm.trans r)
  · rw [same] at r
    exact of_refused (run_bind_of_refused r k) h .refl

theorem requireMethod_bind {what : String} (h : Pledged (ls g) g)
    (hk : g.phase = .method → Spares ls (k ()) g) :
    Spares ls (requirePhase .method what >>= k) g := by
  exact check_bind h checks_requirePhase fun _ w => hk (writes_requireMethod.mp w).1

theorem entry_bind {γ : Type} {m : Emit (Option γ)} {k : Option γ → Emit β} {id : Option Nat}
    {table : Array γ} (h : Pledged (ls g) g) (checks : Checks m)
    (looks : ∀ a, m.Writes g a g → a = id.bind (table[·]?)) (unknown : k none = MonadExcept.throw f)
    (known : ∀ i b, id = some i → table[i]? = some b → Spares ls (k (some b)) g) :
    Spares ls (m >>= k) g := by
  refine check_bind h checks fun a w => ?_
  cases hb : a with
  | none =>
    rw [unknown]
    exact throw h
  | some b =>
    obtain ⟨i, rfl, entry⟩ := Option.bind_eq_some_iff.mp ((looks a w).symm.trans hb)
    exact known i b rfl entry

theorem bind_pure (h : Spares ls m g) (f : α → β) :
    Spares ls (m >>= fun a => Pure.pure (f a)) g := by
  rcases writes_or_refused m g with ⟨a, w⟩ | ⟨e, r⟩
  · exact of_writes (writes_bind.mpr ⟨a, _, w, writes_pure.mpr ⟨rfl, rfl⟩⟩) (h.carried a _ w)
  · obtain ⟨pledged, same⟩ := h.refused e _ r
    exact of_refused (run_bind_of_refused r _) pledged same

theorem seqRight (h : Spares ls m g) {b : β} : Spares ls (m *> Pure.pure b) g := by
  rw [seqRight_eq_bind]
  exact h.bind_pure fun _ => b

theorem map (h : Spares ls m g) {f : α → β} : Spares ls (f <$> m) g := by
  rw [map_eq_pure_bind]
  exact h.bind_pure f

end Spares

end Emit

end Jasm.Assembly
