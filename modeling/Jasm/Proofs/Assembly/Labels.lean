import Mathlib.Data.List.Nodup
import Jasm.Proofs.Assembly.Extension
import Jasm.Proofs.Assembly.History

/-!
# Labels over whole histories

The table of labels knows of each label whether it is defined and which method it belongs to, and no
more. This is enough to keep the promises that concern the whole history of a program: no label is
handed out or defined twice, and whatever is jumped to inside a method that was ended is defined in
that method, and never used in another one.

`Sound` says what the table means for the history behind it. Each part of a history keeps it.
-/

namespace Jasm.Assembly

open Emit LabelTable List Generator

/-! ## Reading histories -/

namespace Event

def handed : Event → List Label
  | .reserved ls => ls
  | _ => []

/-- The label that was defined or jumped to. -/
def use? : Event → Option Label
  | .defined l | .jumped l => some l
  | _ => none

/-- Whether a method is open after an event. -/
def toggle (isOpen : Bool) : Event → Bool
  | .opened => true
  | .ended => false
  | _ => isOpen

end Event

def handed (es : List Event) : List Label := es.flatMap Event.handed

def inside (es : List Event) : Bool := es.foldl Event.toggle false

variable {es es' a b : List Event} {e e' : Event} {l : Label}

theorem handed_append (es es' : List Event) : handed (es ++ es') = handed es ++ handed es' :=
  flatMap_append

theorem handed_snoc (es : List Event) (e : Event) : handed (es ++ [e]) = handed es ++ e.handed := by
  simp [handed]

theorem inside_snoc (es : List Event) (e : Event) : inside (es ++ [e]) = e.toggle (inside es) := by
  simp [inside]

theorem opened_mem_of_inside (h : inside es) : Event.opened ∈ es := by
  induction es using List.reverseRecOn with
  | nil => cases h
  | append_singleton es e ih =>
    rw [inside_snoc] at h
    cases e with
    | opened => simp
    | ended => cases h
    | _ => exact mem_append_left _ (ih h)

theorem not_inside_of_ended (h : Event.opened ∉ b) : inside (a ++ .ended :: b) = false := by
  induction b using List.reverseRecOn with
  | nil => rw [inside_snoc]; rfl
  | append_singleton b e ih =>
    simp only [mem_append, mem_singleton, not_or] at h
    rw [← cons_append, ← append_assoc, inside_snoc]
    cases e with
    | opened => exact absurd rfl h.2
    | ended => rfl
    | _ => exact ih h.1

theorem split_snoc (h : es ++ [e'] = a ++ e :: b) :
    (b = [] ∧ a = es ∧ e = e') ∨ ∃ b', b = b' ++ [e'] ∧ es = a ++ e :: b' := by
  induction b using List.reverseRecOn with
  | nil =>
    obtain ⟨rfl, last⟩ := append_inj' h rfl
    exact .inl ⟨rfl, rfl, (List.cons.inj last).1.symm⟩
  | append_singleton b' x _ =>
    rw [← cons_append, ← append_assoc] at h
    obtain ⟨rfl, last⟩ := append_inj' h rfl
    exact .inr ⟨b', by rw [(List.cons.inj last).1], rfl⟩

/-! ## Handing out labels -/

namespace LabelTable

theorem get?_reserveOne (t : LabelTable) {l : Label} :
    t.reserveOne.2.get? l =
      if labelOf t.stem t.counter = l then some ⟨false, t.current⟩ else t.get? l := by
  show (t.states.insert (labelOf t.stem t.counter) _)[l]? = _
  rw [Std.TreeMap.getElem?_insert]
  simp only [Std.compare_eq_iff_eq]
  rfl

/-- What handing out labels does: the next numbers are given, their labels are not defined and
belong to the open method, and all other labels stay as they are. -/
structure Reserved (t : LabelTable) (ls : List Label) (t' : LabelTable) : Prop where
  labels : ls = (List.range' t.counter ls.length).map (labelOf t.stem)
  counter : t'.counter = t.counter + ls.length
  stem : t'.stem = t.stem
  current : t'.current = t.current
  opened : t'.opened = t.opened
  fresh : ∀ l ∈ ls, t'.get? l = some ⟨false, t.current⟩
  other : ∀ l ∉ ls, t'.get? l = t.get? l

theorem reserved_reserve (t : LabelTable) (n : Nat) :
    Reserved t (t.reserve n).1 (t.reserve n).2 := by
  induction n generalizing t with
  | zero => exact ⟨rfl, rfl, rfl, rfl, rfl, by simp [reserve], fun _ _ => rfl⟩
  | succ n ih =>
    have rest := ih t.reserveOne.2
    -- The first label has a smaller number than the rest, so its state stays.
    have first : labelOf t.stem t.counter ∉ (t.reserveOne.2.reserve n).1 := by
      intro mem
      rw [rest.labels, mem_map] at mem
      obtain ⟨i, hi, eq⟩ := mem
      have := labelOf_injective (show labelOf t.stem i = labelOf t.stem t.counter from eq)
      rw [mem_range'_1] at hi
      have : t.reserveOne.2.counter = t.counter + 1 := rfl
      omega
    refine ⟨?_, ?_, rest.stem, rest.current, rest.opened, fun l hl => ?_, fun l hl => ?_⟩
    · show labelOf t.stem t.counter :: _ = _
      rw [show (t.reserve (n + 1)).1.length = (t.reserveOne.2.reserve n).1.length + 1 from rfl,
        range'_succ, map_cons]
      exact congrArg _ rest.labels
    · show (t.reserveOne.2.reserve n).2.counter = t.counter +
        ((t.reserveOne.2.reserve n).1.length + 1)
      rw [rest.counter, show t.reserveOne.2.counter = t.counter + 1 from rfl]
      omega
    · rcases mem_cons.mp hl with rfl | hl
      · exact (rest.other _ first).trans
          ((get?_reserveOne t).trans (if_pos rfl))
      · exact rest.fresh l hl
    · obtain ⟨ne, hl⟩ := not_or.mp (fun h => hl (mem_cons.mpr h))
      rw [show (t.reserve (n + 1)).2 = (t.reserveOne.2.reserve n).2 from rfl, rest.other l hl,
        get?_reserveOne, if_neg fun h => ne h.symm]

theorem get?_insert {t : LabelTable} {l l' : Label} {s : LabelState} :
    ({ t with states := t.states.insert l s } : LabelTable).get? l' =
      if l = l' then some s else t.get? l' := by
  show (t.states.insert l s)[l']? = _
  rw [Std.TreeMap.getElem?_insert]
  simp only [Std.compare_eq_iff_eq]
  rfl

end LabelTable

/-! ## What the table means -/

/-- What the table of labels says is true of the history behind it. -/
structure Sound (es : List Event) (g : Generator) : Prop where
  handed : handed es = (List.range g.labels.counter).map (labelOf g.labels.stem)
  known : ∀ l, l ∈ Assembly.handed es ↔ ∃ s, g.labels.get? l = some s
  defined : ∀ l s, g.labels.get? l = some s → (s.defined ↔ .defined l ∈ es)
  once : ∀ l, es.count (.defined l) ≤ 1
  /-- A label is used after it was handed out, and only inside the method it belongs to. -/
  used : ∀ a e b l, es = a ++ e :: b → e.use? = some l →
    l ∈ Assembly.handed a ∧ inside a ∧ ∀ s, g.labels.get? l = some s → s.owner = a.count .opened
  /-- At the end of a method no label is left undefined. -/
  complete : ∀ a b, es = a ++ .ended :: b → ∀ l ∈ Assembly.handed a, .defined l ∈ a
  opened : g.labels.opened = es.count .opened
  phase : g.phase ≠ .closed → (g.phase = .method ↔ inside es)
  current : g.phase ≠ .closed → g.labels.current = if inside es then es.count .opened else 0

theorem sound_new {cls : String} (o : Options) : Sound [] (.new cls o) where
  handed := rfl
  known l := by simp [handed, new, get?]
  defined l s h := by simp [new, get?] at h
  once l := by simp
  used a e b l h := by simp at h
  complete a b h := by simp at h
  opened := rfl
  phase _ := by simp [new, inside]
  current _ := rfl

namespace Sound

variable {g g' : Generator}

section

variable (h : Sound es g)
include h

theorem current_method (phase : g.phase = .method) :
    inside es ∧ g.labels.current = es.count .opened ∧ 0 < es.count .opened := by
  have isOpen : inside es := (h.phase (by simp [phase])).mp phase
  refine ⟨isOpen, ?_, count_pos_iff.mpr (opened_mem_of_inside isOpen)⟩
  rw [h.current (by simp [phase]), if_pos isOpen]

theorem owner_pos {s : LabelState} (split : es = a ++ e :: b) (use : e.use? = some l)
    (hs : g.labels.get? l = some s) : 0 < s.owner := by
  obtain ⟨-, isOpen, owner⟩ := h.used a e b l split use
  rw [owner s hs]
  exact count_pos_iff.mpr (opened_mem_of_inside isOpen)

theorem quiet (labels : g'.labels = g.labels)
    (phase : g'.phase ≠ .closed → g.phase ≠ .closed ∧ (g'.phase = .method ↔ g.phase = .method)) :
    Sound (es ++ []) g' := by
  obtain ⟨handed, known, defined, once, used, complete, opened, phase', current⟩ := h
  rw [append_nil]
  rw [← labels] at handed known defined used opened current
  exact ⟨handed, known, defined, once, used, complete, opened,
    fun hp => (phase hp).2.trans (phase' (phase hp).1), fun hp => current (phase hp).1⟩

theorem reserve {ls : List Label} {t : LabelTable} (r : g.labels.Reserved ls t) :
    Sound (es ++ [.reserved ls]) { g with labels := t } := by
  have range : Assembly.handed (es ++ [.reserved ls]) =
      (List.range t.counter).map (labelOf t.stem) := by
    rw [handed_snoc, h.handed, r.stem, r.counter, range_eq_range', range_eq_range',
      ← range'_append_1, map_append, Nat.zero_add, ← r.labels]
    rfl
  -- A label that was known before has a smaller number than those handed out now.
  have new : ∀ l ∈ Assembly.handed es, l ∉ ls := by
    intro l hl hn
    rw [h.handed, mem_map] at hl
    obtain ⟨i, hi, rfl⟩ := hl
    rw [r.labels, mem_map] at hn
    obtain ⟨j, hj, eq⟩ := hn
    have := labelOf_injective eq
    rw [mem_range] at hi
    rw [mem_range'_1] at hj
    omega
  have old : ∀ l ∈ Assembly.handed es, t.get? l = g.labels.get? l :=
    fun l hl => r.other l (new l hl)
  refine ⟨range, fun l => ?_, fun l s hs => ?_, fun l => ?_, ?_, ?_, ?_, ?_, ?_⟩
  · rw [handed_snoc, mem_append, h.known]
    by_cases hl : l ∈ ls
    · simp [Event.handed, hl, r.fresh l hl]
    · simp [Event.handed, hl, r.other l hl]
  · by_cases hl : l ∈ ls
    · have undefined : .defined l ∉ es := by
        intro mem
        obtain ⟨a, b, rfl⟩ := append_of_mem mem
        have := (h.used a _ b l rfl rfl).1
        exact new l (by rw [handed_append]; exact mem_append_left _ this) hl
      cases (r.fresh l hl).symm.trans hs
      simp [undefined]
    · rw [h.defined l s ((r.other l hl).symm.trans hs)]
      simp
  · simpa [count_append] using h.once l
  · intro a e b l split use
    rcases split_snoc split with ⟨-, -, rfl⟩ | ⟨b', -, rfl⟩
    · cases use
    · obtain ⟨mem, isOpen, owner⟩ := h.used a e b' l rfl use
      refine ⟨mem, isOpen, fun s hs => owner s ?_⟩
      rw [← hs]
      exact (old l (by rw [handed_append]; exact mem_append_left _ mem)).symm
  · intro a b split
    rcases split_snoc split with ⟨-, -, eq⟩ | ⟨b', -, rfl⟩
    · cases eq
    · exact h.complete a b' rfl
  · rw [r.opened, h.opened]
    simp [count_append]
  · intro hp
    rw [inside_snoc]
    exact h.phase hp
  · intro hp
    show t.current = _
    rw [r.current, h.current hp, inside_snoc]
    simp [Event.toggle, count_append]

theorem use {s s' : LabelState} {e : Event} {i : Instruction} (use : e.use? = some l)
    (phase : g.phase = .method) (hs : g.labels.get? l = some s) (usable : g.labels.isUsable s)
    (owner : s'.owner = g.labels.current) (defined : s'.defined ↔ .defined l ∈ es ++ [e])
    (once : (es ++ [e]).count (.defined l) ≤ 1) :
    Sound (es ++ [e]) ({ g with
      labels := { g.labels with states := g.labels.states.insert l s' } }.pushInstr i) := by
  obtain ⟨isOpen, current, pos⟩ := h.current_method phase
  have mem : l ∈ Assembly.handed es := (h.known l).mpr ⟨s, hs⟩
  have plain : e.handed = [] ∧ e ≠ .opened ∧ e ≠ .ended ∧ ∀ l', l ≠ l' → e ≠ .defined l' := by
    cases e <;> simp_all [Event.use?, Event.handed]
  obtain ⟨hands, ne_opened, ne_ended, ne_defined⟩ := plain
  have same : e.toggle (inside es) = inside es := by
    cases e <;> simp_all [Event.toggle]
  have count : (es ++ [e]).count .opened = es.count .opened := by
    simp [count_append, ne_opened]
  refine ⟨?_, fun l' => ?_, fun l' s'' hs'' => ?_, fun l' => ?_, ?_, ?_, ?_, ?_, ?_⟩
  · rw [handed_snoc, hands, append_nil]
    exact h.handed
  · rw [handed_snoc, hands, append_nil, h.known]
    simp only [labels_pushInstr, get?_insert]
    by_cases eq : l = l'
    · subst eq
      simp [hs]
    · simp [eq]
  · simp only [labels_pushInstr, get?_insert] at hs''
    by_cases eq : l = l'
    · subst eq
      simp only [if_true, Option.some.injEq] at hs''
      rw [← hs'']
      exact defined
    · rw [if_neg eq] at hs''
      rw [h.defined l' s'' hs'', mem_append, mem_singleton]
      simp [(ne_defined l' eq).symm]
  · by_cases eq : l = l'
    · rw [← eq]
      exact once
    · simpa [count_append, ne_defined l' eq] using h.once l'
  · intro a e' b l' split use'
    simp only [labels_pushInstr, get?_insert]
    rcases split_snoc split with ⟨-, rfl, rfl⟩ | ⟨b', -, rfl⟩
    · cases use.symm.trans use'
      refine ⟨mem, isOpen, fun s'' hs'' => ?_⟩
      simp only [if_true, Option.some.injEq] at hs''
      rw [← hs'', owner, current]
    · obtain ⟨mem', isOpen', owner'⟩ := h.used a e' b' l' rfl use'
      refine ⟨mem', isOpen', fun s'' hs'' => ?_⟩
      by_cases eq : l = l'
      · subst eq
        -- The label has an owner already, and that is the open method.
        have has := h.owner_pos rfl use' hs
        have own : s.owner = g.labels.current := by
          simp only [isUsable, Bool.or_eq_true, decide_eq_true_eq] at usable
          omega
        simp only [if_true, Option.some.injEq] at hs''
        rw [← hs'', owner, ← own]
        exact owner' s hs
      · rw [if_neg eq] at hs''
        exact owner' s'' hs''
  · intro a b split
    rcases split_snoc split with ⟨-, -, eq⟩ | ⟨b', -, rfl⟩
    · exact absurd eq.symm ne_ended
    · exact h.complete a b' rfl
  · rw [count]
    exact h.opened
  · intro hp
    rw [inside_snoc, same]
    exact h.phase hp
  · intro hp
    rw [inside_snoc, same, count]
    exact h.current hp

theorem bracket (isBracket : e = .opened ∨ e = .ended) (states : g'.labels.states = g.labels.states)
    (counter : g'.labels.counter = g.labels.counter) (stem : g'.labels.stem = g.labels.stem)
    (complete : e = .ended → ∀ l ∈ Assembly.handed es, .defined l ∈ es)
    (opened : g'.labels.opened = (es ++ [e]).count .opened)
    (phase : g'.phase = .method ↔ inside (es ++ [e]))
    (current : g'.labels.current = if inside (es ++ [e]) then (es ++ [e]).count .opened else 0) :
    Sound (es ++ [e]) g' := by
  have get : ∀ l, g'.labels.get? l = g.labels.get? l := by
    intro l
    rw [get?, states]
    rfl
  have plain : e.handed = [] ∧ e.use? = none ∧ ∀ l, e ≠ .defined l := by
    rcases isBracket with rfl | rfl <;> simp [Event.handed, Event.use?]
  obtain ⟨hands, uses, ne_defined⟩ := plain
  refine ⟨?_, fun l => ?_, fun l s hs => ?_, fun l => ?_, ?_, ?_, opened, fun _ => phase,
    fun _ => current⟩
  · rw [handed_snoc, hands, append_nil, counter, stem]
    exact h.handed
  · rw [handed_snoc, hands, append_nil, get]
    exact h.known l
  · rw [get] at hs
    rw [h.defined l s hs]
    simp [(ne_defined l).symm]
  · simpa [count_append, ne_defined l] using h.once l
  · intro a e' b l split use
    rcases split_snoc split with ⟨-, -, rfl⟩ | ⟨b', -, rfl⟩
    · cases uses.symm.trans use
    · rw [get]
      exact h.used a e' b' l rfl use
  · intro a b split
    rcases split_snoc split with ⟨-, rfl, eq⟩ | ⟨b', -, rfl⟩
    · exact complete eq.symm
    · exact h.complete a b' rfl

theorem openMethod {m : MethodFrame} {header : Line} :
    Sound (es ++ [.opened]) (Emit.opened g m header) := by
  have count : g.labels.opened + 1 = (es ++ [Event.opened]).count .opened := by
    simp [h.opened, count_append]
  refine h.bracket (.inl rfl) rfl rfl rfl (fun eq => by cases eq) count ?_ ?_
  · simp [Emit.opened, inside_snoc, Event.toggle]
  · rw [inside_snoc]
    exact count

theorem endMethod (pending : g.labels.pending = []) (labels : g'.labels = g.labels) :
    Sound (es ++ [.ended]) (ended g') := by
  have complete : ∀ l ∈ Assembly.handed es, .defined l ∈ es := by
    intro l hl
    obtain ⟨s, hs⟩ := (h.known l).mp hl
    have settled : ¬ g.labels.isPending l := by
      rw [h.handed] at hl
      exact filter_eq_nil_iff.mp pending l hl
    rw [isPending, hs] at settled
    exact (h.defined l s hs).mp (by simpa using settled)
  refine h.bracket (.inr rfl) (labels ▸ rfl) (labels ▸ rfl) (labels ▸ rfl) (fun _ => complete)
    ?_ ?_ ?_
  · show g'.labels.opened = _
    simp [labels, h.opened, count_append]
  · simp [ended, inside_snoc, Event.toggle]
  · rw [inside_snoc]
    rfl

theorem jump {mnemonic : String} {i : Instruction} (w : (jump mnemonic l i).Writes g () g') :
    Sound (es ++ [.jumped l]) g' := by
  obtain ⟨phase, s, hs, usable, rfl⟩ := writes_jump.mp w
  refine h.use rfl phase hs usable rfl ?_ ?_
  · simpa using h.defined l s hs
  · simpa [count_append] using h.once l

theorem define (w : (define l).Writes g () g') :
    Sound (es ++ [.defined l]) g' := by
  obtain ⟨phase, s, hs, new, usable, rfl⟩ := writes_define.mp w
  refine h.use rfl phase hs usable rfl (by simp) ?_
  have first : .defined l ∉ es := by
    rw [← h.defined l s hs, new]
    simp
  simp [count_append, count_eq_zero_of_not_mem first]

theorem part {e : Option Event} (p : Part g e g') : Sound (es ++ e.toList) g' := by
  cases p with
  | reserve w =>
    obtain ⟨-, -, rfl, rfl⟩ := writes_reserve.mp w
    exact h.reserve (reserved_reserve _ _)
  | define w => exact h.define w
  | goto w | branch w => exact h.jump w
  | @beginFunction f _ w =>
    cases f with
    | none => exact absurd w not_writes_throw
    | some f =>
      obtain ⟨-, -, rfl⟩ := writes_beginFunction.mp w
      exact h.openMethod
  | beginMain w =>
    obtain ⟨-, rfl⟩ := writes_beginMain.mp w
    exact h.openMethod
  | endFunction w =>
    obtain ⟨-, -, pending, rfl⟩ := writes_endFunction.mp w
    split <;> exact h.endMethod pending rfl
  | programStart w =>
    obtain ⟨phase, rfl⟩ := writes_programStart.mp w
    exact h.quiet rfl fun _ => ⟨by simp [phase], by simp [phase]⟩
  | programEnd w =>
    obtain ⟨phase, -, rfl⟩ := writes_programEnd.mp w
    exact h.quiet rfl fun _ => ⟨by simp [phase], by simp [phase]⟩
  | printBegin w =>
    obtain ⟨phase, rfl⟩ := writes_printBegin.mp w
    exact h.quiet rfl fun hp => ⟨hp, .rfl⟩
  | printEnd w =>
    obtain ⟨phase, -, what, -, rfl⟩ := writes_printEnd.mp w
    exact h.quiet rfl fun hp => ⟨hp, .rfl⟩
  | field _ _ _ | instr _ _ _ | note _ _ => exact h.quiet rfl fun hp => ⟨hp, .rfl⟩
  | close broken =>
    have labels : (g.close broken).2.labels = g.labels := by
      unfold close
      split <;> rfl
    have closed : (g.close broken).2.phase = .closed := by
      unfold close
      split
      · assumption
      · rfl
    exact h.quiet labels fun hp => absurd closed hp

omit h in
theorem history {cls : String} {o : Options} (h : History (.new cls o) es g) : Sound es g := by
  induction h with
  | refl => exact sound_new o
  | snoc _ p ih => exact ih.part p

/-! ## What follows for histories -/

theorem nodup_handed : (Assembly.handed es).Nodup := by
  rw [h.handed]
  exact nodup_range.map fun _ _ h => labelOf_injective h

theorem length_handed : (Assembly.handed es).length = g.labelCount := by
  simp [h.handed, labelCount]

theorem count_opened_eq {a' b' : List Event} (split : es = a ++ e :: b)
    (split' : es = a' ++ e' :: b') (use : e.use? = some l) (use' : e'.use? = some l) :
    a.count .opened = a'.count .opened := by
  obtain ⟨mem, -, owner⟩ := h.used a e b l split use
  obtain ⟨-, -, owner'⟩ := h.used a' e' b' l split' use'
  have known : l ∈ Assembly.handed es := by
    rw [split, handed_append]
    exact mem_append_left _ mem
  obtain ⟨s, hs⟩ := (h.known l).mp known
  rw [← owner s hs, owner' s hs]

end

section

variable {before body after : List Event}

theorem not_used_before (h : Sound es g)
    (split : es = before ++ .opened :: (body ++ .ended :: after))
    (use : e.use? = some l) (mem : e ∈ body) (use' : e'.use? = some l) : e' ∉ before := by
  intro mem'
  obtain ⟨a, b, rfl⟩ := append_of_mem mem
  obtain ⟨a', b', rfl⟩ := append_of_mem mem'
  have here : es = (a' ++ e' :: b' ++ .opened :: a) ++ e :: (b ++ .ended :: after) := by
    simp [split]
  have there : es = a' ++ e' :: (b' ++ .opened :: (a ++ e :: b ++ .ended :: after)) := by
    simp [split]
  have eq := h.count_opened_eq here there use use'
  simp only [count_append, count_cons_self] at eq
  omega

/-- No label is used in two methods. -/
theorem not_used_after (h : Sound es g)
    (split : es = before ++ .opened :: (body ++ .ended :: after))
    (use : e.use? = some l) (mem : e ∈ body) (use' : e'.use? = some l) : e' ∉ after := by
  intro mem'
  obtain ⟨a, b, rfl⟩ := append_of_mem mem
  obtain ⟨a', b', rfl⟩ := append_of_mem mem'
  have split' : es = (before ++ .opened :: (a ++ e :: b)) ++ .ended :: a' ++ e' :: b' := by
    simp [split]
  have eq := h.count_opened_eq (a := before ++ .opened :: a)
    (b := b ++ .ended :: (a' ++ e' :: b')) (by simp [split]) split' use use'
  -- Behind the end of the method another one would have to be opened first.
  have none : Event.opened ∉ a' := by
    intro again
    have pos := count_pos_iff.mpr again
    have le := count_le_count_cons (a := Event.opened) (b := .ended) (l := a')
    simp only [count_append, count_cons_self] at eq
    omega
  have isOpen := (h.used _ e' b' l split' use').2.1
  rw [not_inside_of_ended none] at isOpen
  cases isOpen

theorem defined_in_body (h : Sound es g)
    (split : es = before ++ .opened :: (body ++ .ended :: after))
    (mem : .jumped l ∈ body) : .defined l ∈ body := by
  obtain ⟨a, b, hb⟩ := append_of_mem mem
  have split' : es = before ++ .opened :: a ++ .jumped l :: (b ++ .ended :: after) := by
    simp [split, hb]
  have known := (h.used _ _ _ l split' rfl).1
  have defined := h.complete (before ++ .opened :: body) after (by simp [split]) l (by
    rw [hb, show before ++ .opened :: (a ++ .jumped l :: b) =
      before ++ .opened :: a ++ .jumped l :: b by simp, handed_append]
    exact mem_append_left _ known)
  rcases mem_append.mp defined with early | late
  · exact absurd early (h.not_used_before split rfl mem rfl)
  · simpa using late

end

end Sound

/-! ## What the text shows -/

/-- The use of a label that a line shows. -/
def Line.event? : Line → Option Event
  | .instr (.label l) => some (.defined l)
  | .instr (.goto l) | .instr (.branch _ l) => some (.jumped l)
  | _ => none

/-- The uses of labels that the lines of a program show. -/
def Generator.shown (g : Generator) : List Event := g.lines.toList.filterMap fun x => x.2.event?

namespace Generator

theorem shown_push {g : Generator} {l : Line} : (g.push l).shown = g.shown ++ l.event?.toList := by
  cases h : l.event? <;> simp [shown, push, h]

theorem shown_pushInstr {g : Generator} {i : Instruction} :
    (g.pushInstr i).shown = g.shown ++ (Line.instr i).event?.toList := shown_push

end Generator

/-- The class, the options and the stem of labels, which are chosen before anything is written. -/
def Generator.looks (g : Generator) : String × Options × String :=
  (g.className, g.options, g.labels.stem)

/-- A part shows the use of a label that it is, and leaves what the program was begun with. -/
theorem Part.shown {g g' : Generator} {e : Option Event} (p : Part g e g') :
    g'.shown = g.shown ++ (e.filter fun e => e.use?.isSome).toList ∧ g'.looks = g.looks := by
  cases p with
  | @reserve n _ _ w =>
    obtain ⟨-, -, -, rfl⟩ := writes_reserve.mp w
    have stem := (reserved_reserve g.labels n.toNat).stem
    exact ⟨(append_nil _).symm, congrArg (fun s => (g.className, g.options, s)) stem⟩
  | define w =>
    obtain ⟨-, s, -, -, -, rfl⟩ := writes_define.mp w
    exact ⟨shown_pushInstr, rfl⟩
  | goto w =>
    obtain ⟨-, s, -, -, rfl⟩ := writes_jump.mp w
    exact ⟨shown_pushInstr, rfl⟩
  | branch w =>
    obtain ⟨-, s, -, -, rfl⟩ := writes_jump.mp w
    exact ⟨shown_pushInstr, rfl⟩
  | @beginFunction f _ w =>
    cases f with
    | none => exact absurd w not_writes_throw
    | some f =>
      obtain ⟨-, -, rfl⟩ := writes_beginFunction.mp w
      exact ⟨by simp [Generator.shown, Emit.opened, push, Line.event?, Event.use?], rfl⟩
  | beginMain w =>
    obtain ⟨-, rfl⟩ := writes_beginMain.mp w
    exact ⟨by simp [Generator.shown, Emit.opened, push, Line.event?, Event.use?], rfl⟩
  | endFunction w =>
    obtain ⟨-, -, -, rfl⟩ := writes_endFunction.mp w
    refine ⟨?_, by split <;> rfl⟩
    split <;> simp [Generator.shown, ended, push, pushInstr, Line.event?, Event.use?]
  | programStart w =>
    obtain ⟨-, rfl⟩ := writes_programStart.mp w
    exact ⟨shown_push, rfl⟩
  | programEnd w =>
    obtain ⟨-, -, rfl⟩ := writes_programEnd.mp w
    exact ⟨shown_push, rfl⟩
  | printBegin w =>
    obtain ⟨-, rfl⟩ := writes_printBegin.mp w
    exact ⟨shown_pushInstr, rfl⟩
  | printEnd w =>
    obtain ⟨-, -, what, -, rfl⟩ := writes_printEnd.mp w
    exact ⟨shown_pushInstr, rfl⟩
  | field id init _ => exact ⟨shown_push, rfl⟩
  | @instr i _ label target =>
    refine ⟨shown_pushInstr.trans ?_, rfl⟩
    cases i with
    | label l => cases label
    | goto l | branch c l => cases target
    | _ => rfl
  | note ifs loops => exact ⟨(append_nil _).symm, rfl⟩
  | close broken =>
    unfold Generator.close
    split <;> exact ⟨(append_nil _).symm, rfl⟩

theorem History.filter_use {cls : String} {o : Options} {g : Generator}
    (h : History (.new cls o) es g) : es.filter (fun e => e.use?.isSome) = g.shown := by
  induction h with
  | refl => rfl
  | @snoc es e g₁ g₂ _ p ih =>
    rw [filter_append, ih, p.shown.1]
    cases e with
    | none => rfl
    | some e => cases h : e.use?.isSome <;> simp [Option.filter, h]

namespace Generator

open Emit

theorem Ran.call {g g₁ g₂ : Generator} {as : List Action} {es es' : List Event}
    (h : Ran g as es g₁) (c : Call) {r : Reply} (w : c.perform.Writes g₁ r g₂)
    (history : History g₁ es' g₂) : Ran g (as ++ [.call c]) (es ++ es') g₂ := by
  have eq : g₁.act (.call c) = g₂ := congrArg Prod.snd w
  subst eq
  exact .snoc h history

theorem ran_forward : ∃ g, Ran (.new "P" .standard)
    [.call .programStart, .call (.reserve 1), .call .beginMain, .call (.goto "L0"),
      .call (.define "L0"), .call .endMain]
    [.reserved ["L0"], .opened, .jumped "L0", .defined "L0", .ended] g := by
  let t : LabelTable := { stem := "L" }
  let t₁ := t.reserveOne.2.enterMethod
  let t₂ := t₁.bind "L0" ⟨false, 0⟩
  have label : labelOf "L" 0 = "L0" := by decide +kernel
  have h₁ : t₁.get? "L0" = some ⟨false, 0⟩ := t.get?_reserveOne.trans (if_pos label)
  have h₂ : t₂.get? "L0" = some ⟨false, 1⟩ := Std.TreeMap.getElem?_insert_self
  have h₃ : (t₂.define "L0").get? "L0" = some ⟨true, 1⟩ := Std.TreeMap.getElem?_insert_self
  have pending : (t₂.define "L0").pending = [] := by
    have settled : (t₂.define "L0").isPending "L0" = false := by
      simp [isPending, h₃]
    show List.filter _ [(t₂.define "L0").label 0] = []
    rw [show (t₂.define "L0").label 0 = "L0" from label]
    simp [settled]
  let g₀ : Generator := .new "P" .standard
  let g₁ : Generator := { g₀.push .openClass with depth := 1, phase := .program }
  let g₂ : Generator := { g₁ with labels := t.reserveOne.2 }
  let g₃ := opened g₂ ⟨"main", .none⟩ .entryPoint
  let g₄ := { g₃ with labels := t₂ }.pushInstr (.goto "L0")
  let g₅ := { g₄ with labels := t₂.define "L0" }.pushInstr (.label "L0")
  have w₁ : programStart.Writes g₀ () g₁ := rfl
  have w₂ : (reserve 1).Writes g₁ ["L0"] g₂ := by
    rw [← label]
    rfl
  have w₃ : beginMain.Writes g₂ () g₃ := rfl
  have w₄ : (goto "L0").Writes g₃ () g₄ := writes_jump.mpr ⟨rfl, _, h₁, rfl, rfl⟩
  have w₅ : (define "L0").Writes g₄ () g₅ := writes_define.mpr ⟨rfl, _, h₂, rfl, rfl, rfl⟩
  have w₆ : endFunction.Writes g₅ () (ended (g₅.pushInstr .ret)) :=
    writes_endFunction.mpr ⟨rfl, rfl, pending, rfl⟩
  have w₆' : endMain.Writes g₅ () _ := writes_endMain.mpr ⟨fun m h => by cases h; rfl, w₆⟩
  have ran₃ := ((Ran.nil.call .programStart (w₁.seqRight _) (.one (.programStart w₁))).call
    (.reserve 1) (w₂.map _) (.one (.reserve w₂))).call .beginMain (w₃.seqRight _)
      (.one (.beginMain w₃))
  exact ⟨_, ((ran₃.call (.goto "L0") (w₄.seqRight _) (.one (.goto w₄))).call (.define "L0")
    (w₅.seqRight _) (.one (.define w₅))).call .endMain (w₆'.seqRight _) (.one (.endFunction w₆))⟩

/-- Labels over everything a client can do with a program from its beginning. What it does has a
history, and of every history of it the following holds.

* The uses of labels in it are those that the text shows.
* All labels that were handed out are distinct, and the program knows how many they are.
* No label is defined twice.
* A label that is jumped to in a method that was ended is defined once in that method, and it is
  neither defined nor jumped to anywhere else. -/
theorem labels_sound (cls : String) (o : Options) (as : List Action) :
    (∃ es, Ran (.new cls o) as es (as.foldl act (.new cls o))) ∧
    ∀ es g, Ran (.new cls o) as es g →
      es.filter (fun e => e.use?.isSome) = g.shown ∧
      (handed es).Nodup ∧ (handed es).length = g.labelCount ∧
      (∀ l, es.count (.defined l) ≤ 1) ∧
      ∀ before body after l, es = before ++ .opened :: (body ++ .ended :: after) →
        .opened ∉ body → .ended ∉ body → .jumped l ∈ body →
        body.count (.defined l) = 1 ∧ .defined l ∉ before ++ after ∧
          .jumped l ∉ before ++ after := by
  refine ⟨exists_ran, fun es g ran => ?_⟩
  have h := Sound.history ran.history
  refine ⟨ran.history.filter_use, h.nodup_handed, h.length_handed, h.once,
    fun before body after l split _ _ jumped => ?_⟩
  have defined := h.defined_in_body split jumped
  refine ⟨Nat.le_antisymm ?_ (List.count_pos_iff.mpr defined), ?_, ?_⟩
  · refine Nat.le_trans ?_ (h.once l)
    rw [split]
    exact List.Sublist.count_le _ (List.sublist_append_of_sublist_right
      (.cons _ (List.sublist_append_left body _)))
  · rw [List.mem_append, not_or]
    exact ⟨h.not_used_before split rfl jumped rfl, h.not_used_after split rfl jumped rfl⟩
  · rw [List.mem_append, not_or]
    exact ⟨h.not_used_before split rfl jumped rfl, h.not_used_after split rfl jumped rfl⟩

theorem labels_sound_forward : ∃ g, Ran (.new "P" .standard)
      [.call .programStart, .call (.reserve 1), .call .beginMain, .call (.goto "L0"),
        .call (.define "L0"), .call .endMain]
      [.reserved ["L0"], .opened, .jumped "L0", .defined "L0", .ended] g ∧
    g.labelCount = 1 ∧ [Event.jumped "L0", .defined "L0"].count (.defined "L0") = 1 := by
  obtain ⟨g, ran⟩ := ran_forward
  obtain ⟨-, -, count, -, once⟩ := (labels_sound "P" .standard _).2 _ g ran
  exact ⟨g, ran, count.symm, (once [.reserved ["L0"]] [.jumped "L0", .defined "L0"] [] "L0" rfl
    (by decide) (by decide) (by decide)).1⟩

end Generator

end Jasm.Assembly
