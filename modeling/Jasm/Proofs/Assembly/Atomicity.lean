import Jasm.Proofs.Assembly.Pledges

/-!
# Refused calls leave no trace

Some calls write several lines, and such a call could be refused in the middle. It is not: what a
branch or a loop still needs when it is gone on with is there, because the label it is to define is
pledged. So a refused call leaves the program what it was, as long as the client does not define
labels that branches and loops reserved for themselves.
-/

namespace Jasm.Assembly

open LabelTable Generator List

variable {g g' : Generator} {ls : List Label}

/-- The labels that were handed out between two states of a program. -/
def Generator.since (g g' : Generator) : List Label :=
  (List.range' g.labelCount (g'.labelCount - g.labelCount)).map (labelOf g.labels.stem)

theorem Generator.mem_since {n : Nat} (lower : g.labelCount ≤ n) (upper : n < g'.labelCount) :
    labelOf g.labels.stem n ∈ g.since g' := by
  refine mem_map.mpr ⟨n, mem_range'_1.mpr ⟨lower, ?_⟩, rfl⟩
  omega

namespace Emit

variable {α β : Type} {l : Label}

theorem refused_of_phase {what : String} {k : Unit → Emit β} (phase : g.phase ≠ .method) :
    ∃ f, (requirePhase .method what >>= k).run.run g = (.error f, g) := by
  rcases writes_or_refused (requirePhase .method what) g with ⟨a, w⟩ | ⟨f, r⟩
  · have w' : (requirePhase .method what >>= fun _ => Pure.pure ()).Writes g () _ :=
      writes_bind.mpr ⟨(), _, w, writes_pure.mpr ⟨rfl, rfl⟩⟩
    exact absurd (writes_requireMethod_bind.mp w').1 phase
  · rw [checks_requirePhase.same g] at r
    exact ⟨f, run_bind_of_refused r k⟩

/-! ## Labels -/

variable (h : Pledged ls g)
include h

theorem spares_reserve (n : Int) : Spares (fun _ => ls) (reserve n) g := by
  refine .of_atomic h atomic_reserve fun new g' w => ?_
  obtain ⟨-, -, -, rfl⟩ := writes_reserve.mp w
  have r := reserved_reserve g.labels n.toNat
  refine h.keep rfl rfl (h.counted.reserved r) r.current (.inl rfl) fun l s hs _ _ => ?_
  have old : l ∉ (g.labels.reserve n.toNat).1 := by
    intro mem
    rw [r.unknown h.counted l mem] at hs
    cases hs
  exact (r.other l old).trans hs

theorem spares_define (foreign : l ∉ ls) :
    Spares (fun _ => ls) (define l) g := by
  refine .of_atomic h atomic_define fun _ g' w => ?_
  obtain ⟨-, s, known, undefined, -, rfl⟩ := writes_define.mp w
  refine h.keep rfl rfl (h.counted.insert known) rfl (.inl rfl) fun l' s' hs' _ kept => ?_
  show (g.labels.define l).get? l' = _
  rw [get?_define, if_neg]
  · exact hs'
  · rintro rfl
    cases known.symm.trans hs'
    rcases kept with defined | mem
    · rw [undefined] at defined
      cases defined
    · exact foreign mem

theorem spares_jump {mnemonic : String} {l : Label} {i : Instruction} :
    Spares (fun _ => ls) (jump mnemonic l i) g := by
  refine .of_atomic h (atomic_jump fun _ _ => trivial) fun _ g' w => ?_
  obtain ⟨-, s, known, -, rfl⟩ := writes_jump.mp w
  refine h.keep rfl rfl (h.counted.insert known) rfl (.inl rfl) fun l' s' hs' own _ => ?_
  show (g.labels.bind l s).get? l' = _
  rw [LabelTable.bind, get?_insert]
  split
  · next eq =>
      subst eq
      cases known.symm.trans hs'
      rw [← own]
  · exact hs'

theorem spares_branchCode {code : Nat} (l : Label) :
    Spares (fun _ => ls) (branchCode code l) g := by
  unfold branchCode
  cases Cond.ofCode? code with
  | none => exact .throw h
  | some c => exact (spares_jump h).bind_pure fun _ => c

/-! ## The class and its methods -/

theorem spares_outside {m : Emit α} (atomic : Atomic (fun _ => True) m)
    (outside : ∀ a g', m.Writes g a g' → (∀ x, g.pledge? x = none) ∧ g'.ifs = g.ifs ∧
      g'.loops = g.loops ∧ (g.labels.Counted → g'.labels.Counted)) :
    Spares (fun _ => ls) m g := by
  refine .of_atomic h atomic fun a g' w => ?_
  obtain ⟨idle, ifs, loops, counted⟩ := outside a g' w
  refine .of_none (fun x => (pledge?_congr ifs loops x).trans (idle x)) (counted h.counted) ?_
  rw [ifs]
  exact h.join

theorem spares_programStart : Spares (fun _ => ls) programStart g := by
  refine spares_outside h atomic_programStart fun _ g' w => ?_
  obtain ⟨phase, rfl⟩ := writes_programStart.mp w
  exact ⟨h.none_open (by simp [phase]) (by simp [phase]), rfl, rfl, id⟩

theorem spares_programEnd : Spares (fun _ => ls) programEnd g := by
  refine spares_outside h atomic_programEnd fun _ g' w => ?_
  obtain ⟨phase, -, rfl⟩ := writes_programEnd.mp w
  exact ⟨h.none_open (by simp [phase]) (by simp [phase]), rfl, rfl, id⟩

theorem spares_beginFunction (f : Option Signature) :
    Spares (fun _ => ls) (beginFunction f) g := by
  cases f with
  | none => exact .throw h
  | some f =>
    refine spares_outside h atomic_beginFunction fun _ g' w => ?_
    obtain ⟨phase, -, rfl⟩ := writes_beginFunction.mp w
    exact ⟨h.none_open (by simp [phase]) (by simp [phase]), rfl, rfl, id⟩

theorem spares_beginMain : Spares (fun _ => ls) beginMain g := by
  refine spares_outside h atomic_beginMain fun _ g' w => ?_
  obtain ⟨phase, rfl⟩ := writes_beginMain.mp w
  exact ⟨h.none_open (by simp [phase]) (by simp [phase]), rfl, rfl, id⟩

theorem spares_endFunction : Spares (fun _ => ls) endFunction g := by
  refine spares_outside h atomic_endFunction fun _ g' w => ?_
  obtain ⟨-, -, none, rfl⟩ := writes_endFunction.mp w
  refine ⟨fun a => ?_, ?_⟩
  · cases ha : g.pledge? a with
    | none => rfl
    | some l =>
      have pending := h.counted.pending (h.pending a l ha)
      rw [none] at pending
      cases pending
  · split <;> exact ⟨rfl, rfl, id⟩

theorem spares_endMain : Spares (fun _ => ls) endMain g := by
  refine .get_bind ?_
  cases g.method with
  | none => exact spares_endFunction h
  | some m => exact .guard h fun _ => spares_endFunction h

/-! ## Comparisons -/

theorem spares_relation {op : Operator} :
    Spares (fun _ => ls) (relation op) g := by
  cases hc : Cond.ofOperator? op with
  | none =>
    refine .requireMethod_bind h fun _ => ?_
    rw [hc]
    exact .throw h
  | some c =>
    by_cases phase : g.phase = .method
    · have served : Serves (relation op) g (fun _ => Settles g) fun _ => False :=
        serves_relation (.refl phase h.counted) (by simp [hc])
      obtain ⟨_, g', w, settles⟩ := served.writes
      obtain ⟨_, -, adds⟩ := adds_of_relation rfl w
      refine .of_writes w (h.keep adds.ifs adds.loops settles.counted settles.current
        (.inl (settles.phase.trans phase.symm)) fun l s hs _ _ => settles.old l s hs)
    · exact .requireMethod_bind h fun method => absurd method phase

/-! ## Branches -/

theorem Leaves.get?_pledged {ls' : List Label} (leaves : Leaves ls' g g') {a : Handle}
    (ha : g.pledge? a = some l) :
    g'.labels.get? l = g.labels.get? l := by
  have known := h.pending a l ha
  rw [known]
  exact leaves.old l _ known

theorem spares_ifBegin : Spares (fun g' => ls ++ g.since g') ifBegin g := by
  have old : Pledged (ls ++ g.since g) g := h.mono (subset_append_left _ _)
  by_cases phase : g.phase = .method
  · obtain ⟨id, g', w, l, branching⟩ :=
      (serves_ifBegin (F := fun _ => False) phase h.counted).writes
    obtain ⟨ext, rfl, ifs, loops⟩ := extends_of_ifBegin rfl w
    obtain ⟨this, others⟩ := pledge?_alterIf (fun _ => ifs ▸ Array.getElem?_push) loops
    have leaves := branching.leaves
    refine .of_writes w (h.update (subset_append_left _ _) leaves.counted
      leaves.current (leaves.phase.trans phase.symm) others ?_ ?_ ?_ ?_)
    · intro a l _ ha
      exact leaves.get?_pledged h ha
    · intro l' hl'
      rw [this] at hl'
      cases hl'
      have entry := branching.entry
      rw [ifs, Array.getElem?_push_size] at entry
      cases entry
      obtain ⟨unknown, pending⟩ := leaves.pending _ (mem_singleton.mpr rfl)
      refine ⟨mem_append_right _ (mem_since (Nat.le_refl _) ?_), .inl phase, pending,
        fun a _ => h.unpledged unknown⟩
      show g.labels.counter < g'.labels.counter
      rw [ext.counter]
      omega
    · intro id e entry isOpen
      rw [loops] at entry
      exact leaves.old _ _ (h.head id e entry isOpen)
    · intro id b entry first
      rw [ifs, Array.getElem?_push] at entry
      split at entry
      · cases entry
        rfl
      · exact h.join id b entry first
  · exact .requireMethod_bind old fun method => absurd method phase

theorem spares_otherwise {id : Option Nat} :
    Spares (fun g' => ls ++ g.since g') (otherwise id) g := by
  have sub (g' : Generator) : ls ⊆ ls ++ g.since g' := subset_append_left _ _
  have old : Pledged (ls ++ g.since g) g := h.mono (sub g)
  refine .entry_bind old checks_ifBlock? (by rintro _ ⟨⟩; rfl) rfl ?_
  rintro i b rfl entry
  refine .guard old fun notYet => .requireMethod_bind old fun phase => .get_bind ?_
  simp only [Bool.or_eq_true, not_or, Bool.not_eq_true] at notYet
  obtain ⟨isOpen, first⟩ := notYet
  have alone := h.join i b entry first
  have pledge : g.pledge? (.branch i) = some b.falseTarget := by
    simp [pledge?, entry, IfBlock.pledge?, IfBlock.target?, isOpen, first]
  have pending := h.pending _ _ pledge
  refine .ite (fun _ => ?_) fun _ => ?_
  · refine .of_writes (writes_bind.mpr ⟨(), _, writes_modify.mpr rfl,
      writes_define_own phase pending⟩) ?_
    refine h.setIf entry rfl rfl (h.counted.insert pending) rfl rfl (sub _)
      (fun a l ne ha => h.get?_define_other ne pledge ha)
      (fun _ _ he isOpen => h.get?_define_head pending he isOpen) ?_ (by simp)
    intro l hl
    simp [IfBlock.pledge?, IfBlock.target?, isOpen, alone] at hl
  · -- Up to the label only a new label was taken and jumped to, which keeps the pledges.
    let join := labelOf g.labels.stem g.labels.counter
    let t := g.labels.reserveOne.2.bind join ⟨false, g.labels.current⟩
    have fresh : g.labels.reserveOne.2.get? join = some ⟨false, g.labels.current⟩ :=
      (get?_reserveOne _).trans (if_pos rfl)
    have unknown : g.labels.get? join = none := h.counted.next
    have get? (l : Label) : t.get? l =
        if join = l then some ⟨false, g.labels.current⟩ else g.labels.get? l :=
      (get?_bind_own fresh rfl l).trans (get?_reserveOne _)
    have kept (l : Label) (s : LabelState) (hs : g.labels.get? l = some s) :
        t.get? l = some s := by
      rw [get?, if_neg]
      · exact hs
      · rintro rfl
        rw [unknown] at hs
        cases hs
    have counted : t.Counted :=
      (h.counted.reserved (g.labels.reserved_reserve 1)).insert fresh
    have jumped : Pledged ls { g with labels := t } :=
      h.keep rfl rfl counted rfl (.inl rfl) fun l s hs _ _ => kept l s hs
    have pending' : t.get? b.falseTarget = some ⟨false, g.labels.current⟩ :=
      kept _ _ pending
    refine .of_writes (writes_reserve_bind.mpr ⟨by simp [phase], by decide,
      writes_bind.mpr ⟨(), _, writes_modify.mpr rfl, writes_bind.mpr ⟨(), _,
        writes_jump_own phase fresh rfl, writes_define_own phase pending'⟩⟩⟩) ?_
    refine jumped.setIf entry rfl rfl (counted.insert pending') rfl rfl (sub _)
      (fun a l ne ha => jumped.get?_define_other ne pledge ha)
      (fun _ _ he isOpen => jumped.get?_define_head pending' he isOpen) ?_ (by simp)
    intro l hl
    simp only [IfBlock.pledge?, IfBlock.target?, isOpen, Bool.false_eq_true, if_false, if_true,
      Option.some.injEq] at hl
    subst hl
    refine ⟨mem_append_right _ (mem_since (Nat.le_refl _) ?_), .inl phase, ?_,
      fun a _ => h.unpledged unknown⟩
    · exact Nat.lt_succ_self g.labels.counter
    · show (t.define b.falseTarget).get? join = _
      rw [get?_define, if_neg]
      · exact (get? join).trans (if_pos rfl)
      · intro eq
        rw [eq, unknown] at pending
        cases pending

theorem spares_ifEnd {id : Option Nat} : Spares (fun _ => ls) (ifEnd id) g := by
  refine .entry_bind h checks_ifBlock? (by rintro _ ⟨⟩; rfl) rfl ?_
  rintro i b rfl entry
  refine .guard h fun notYet => ?_
  simp only [Bool.not_eq_true] at notYet
  have noted : Pledged ls
      { g with ifs := g.ifs.setIfInBounds i { b with closed := true } } :=
    h.setIf entry rfl rfl h.counted rfl rfl (List.Subset.refl _) (fun _ _ _ _ => rfl) h.head
      (by simp [IfBlock.pledge?]) (h.join i b entry)
  have closing (l : Label) (target : b.target? = some l) :
      Spares (fun _ => ls) (setIf (some i) { b with closed := true } >>= fun _ => define l) g := by
    have pledge : g.pledge? (.branch i) = some l := by
      simp [pledge?, entry, IfBlock.pledge?, notYet, target]
    have pending := h.pending _ _ pledge
    rcases h.inside _ _ pledge with phase | phase
    · refine .of_writes (writes_bind.mpr ⟨(), _, writes_modify.mpr rfl,
        writes_define_own phase pending⟩) ?_
      exact h.setIf entry rfl rfl (h.counted.insert pending) rfl rfl (List.Subset.refl _)
        (fun a l ne ha => h.get?_define_other ne pledge ha)
        (fun _ _ he isOpen => h.get?_define_head pending he isOpen)
        (by simp [IfBlock.pledge?]) (h.join i b entry)
    · obtain ⟨f, r⟩ := refused_of_phase
        (g := { g with ifs := g.ifs.setIfInBounds i { b with closed := true } })
        (by simp [phase])
      exact .of_refused ((run_bind_of_writes (a := ⟨⟩) (writes_modify.mpr rfl) _).trans r)
        noted
        ⟨rfl, fun isOpen => absurd phase isOpen⟩
  obtain ⟨falseTarget, join, hasElse, closed⟩ := b
  cases hasElse with
  | false => exact closing falseTarget rfl
  | true =>
    cases join with
    | none => exact .of_writes (writes_bind.mpr ⟨(), _, writes_modify.mpr rfl,
        writes_pure.mpr ⟨rfl, rfl⟩⟩) noted
    | some join => exact closing join rfl

/-! ## Loops -/

theorem spares_loopBegin : Spares (fun g' => ls ++ g.since g') loopBegin g := by
  have old : Pledged (ls ++ g.since g) g := h.mono (subset_append_left _ _)
  by_cases phase : g.phase = .method
  · obtain ⟨id, g', w, e, -, looping⟩ :=
      (serves_loopBegin (F := fun _ => False) phase h.counted).writes
    obtain ⟨ext, rfl, loops, ifs⟩ := extends_of_loopBegin rfl w
    obtain ⟨this, others⟩ := pledge?_alterLoop (fun _ => loops ▸ Array.getElem?_push) ifs
    have leaves := looping.leaves
    have entry := looping.entry
    rw [loops, Array.getElem?_push_size] at entry
    cases entry
    refine .of_writes w (h.update (subset_append_left _ _) leaves.counted
      leaves.current (leaves.phase.trans phase.symm) others ?_ ?_ ?_ ?_)
    · intro a l _ ha
      exact leaves.get?_pledged h ha
    · intro l hl
      rw [this] at hl
      cases hl
      obtain ⟨unknown, pending⟩ := leaves.pending _ (mem_singleton.mpr rfl)
      refine ⟨mem_append_right _ (mem_since (Nat.le_succ _) ?_), .inl phase, pending,
        fun a _ => h.unpledged unknown⟩
      show g.labels.counter + 1 < g'.labels.counter
      rw [ext.counter]
      omega
    · intro i x hx isOpen
      rw [loops, Array.getElem?_push] at hx
      split at hx
      · cases hx
        exact looping.head.2
      · exact leaves.old _ _ (h.head i x hx isOpen)
    · intro i b hb
      rw [ifs] at hb
      exact h.join i b hb
  · exact .requireMethod_bind old fun method => absurd method phase

theorem spares_note {i : Nat} {e e' : Loop} {what : String} {k : Unit → Emit β} {m : Emit β}
    (hm : m = requirePhase .method what >>= k) (entry : g.loops[i]? = some e)
    (isOpen : e.closed = false) (head : e'.head = e.head) (exit : e'.exit = e.exit)
    (goesOn : g.phase = .method → g.pledge? (.loop i) = some e.exit →
      Spares (fun _ => ls) (setLoop (some i) e' >>= fun _ => m) g) :
    Spares (fun _ => ls) (setLoop (some i) e' >>= fun _ => m) g := by
  have pledge : g.pledge? (.loop i) = some e.exit := by
    simp [pledge?, entry, Loop.pledge?, isOpen]
  rcases h.inside _ _ pledge with phase | phase
  · exact goesOn phase pledge
  · let noted : Generator := { g with loops := g.loops.setIfInBounds i e' }
    obtain ⟨f, r⟩ := refused_of_phase (g := noted) (by simp [noted, phase])
    rw [← hm] at r
    refine .of_refused ((run_bind_of_writes (a := ⟨⟩) (writes_modify.mpr rfl) _).trans r) ?_
      ⟨rfl, fun isOpen => absurd phase isOpen⟩
    refine h.setLoop entry isOpen rfl rfl h.counted rfl rfl (fun _ _ _ _ => rfl) h.head ?_ head
    intro l hl
    have eq : l = e.exit := by
      rw [Loop.pledge?, exit] at hl
      split at hl
      · cases hl
      · exact (Option.some.inj hl).symm
    exact ⟨eq ▸ pledge, rfl⟩

theorem spares_loopTest {id : Option Nat} :
    Spares (fun _ => ls) (loopTest id) g := by
  refine .entry_bind h checks_loop? (by rintro _ ⟨⟩; rfl) rfl ?_
  rintro i e rfl entry
  refine .guard h fun notYet => ?_
  simp only [Bool.or_eq_true, not_or, Bool.not_eq_true] at notYet
  obtain ⟨-, isOpen⟩ := notYet
  refine spares_note h rfl entry isOpen rfl rfl fun phase pledge => ?_
  have pending := h.pending _ _ pledge
  have same := get?_bind_own pending rfl
  refine .of_writes (writes_bind.mpr ⟨(), _, writes_modify.mpr rfl,
    writes_jump_own phase pending rfl⟩) ?_
  refine h.setLoop entry isOpen rfl rfl (h.counted.insert pending) rfl rfl
    (fun _ l _ _ => same l) (fun i x hx xOpen => (same _).trans (h.head i x hx xOpen)) ?_ rfl
  intro l hl
  rw [Loop.pledge?, if_neg (by simp [isOpen])] at hl
  cases hl
  exact ⟨pledge, same _⟩

theorem spares_loopEnd {id : Option Nat} :
    Spares (fun _ => ls) (loopEnd id) g := by
  refine .entry_bind h checks_loop? (by rintro _ ⟨⟩; rfl) rfl ?_
  rintro i e rfl entry
  refine .guard h fun notYet => ?_
  simp only [Bool.or_eq_true, not_or, Bool.not_eq_true] at notYet
  obtain ⟨-, isOpen⟩ := notYet
  refine spares_note h (bind_assoc _ _ _) entry isOpen rfl rfl fun phase pledge => ?_
  have head := h.head i e entry isOpen
  let t := g.labels.bind e.head ⟨true, g.labels.current⟩
  have same : ∀ l, t.get? l = g.labels.get? l := get?_bind_own head rfl
  have jumped : Pledged ls { g with labels := t } :=
    h.keep rfl rfl (h.counted.insert head) rfl (.inl rfl) fun l s hs _ _ => (same l).trans hs
  have pending := jumped.pending (.loop i) e.exit pledge
  refine .of_writes (writes_bind.mpr ⟨(), _, writes_modify.mpr rfl, writes_bind.mpr ⟨(), _,
    writes_jump_own phase head rfl, writes_define_own phase pending⟩⟩) ?_
  exact jumped.setLoop entry isOpen rfl rfl (jumped.counted.insert pending) rfl rfl
    (fun a l ne ha => jumped.get?_define_other ne pledge ha)
    (fun _ _ hx xOpen => jumped.get?_define_head pending hx xOpen) (by simp [Loop.pledge?]) rfl

end Emit

/-! ## Calls -/

/-- Whether a call reserves labels for a branch or a loop. -/
def Call.isBlock : Call → Bool
  | .ifBegin | .otherwise _ | .loopBegin => true
  | _ => false

/-- The labels that a call reserves for a branch or a loop. -/
def Call.taken (g : Generator) (c : Call) : List Label :=
  if c.isBlock then g.since (g.step c).2 else []

open Emit in
theorem Call.spares (c : Call) (h : Pledged ls g) (discreet : ∀ l ∈ ls, c ≠ .define l) :
    Spares (fun g' => if c.isBlock then ls ++ g.since g' else ls) c.perform g := by
  have still {m : Emit Unit} (atomic : Atomic (fun _ => True) m) (quiet : Still m) :
      Spares (fun _ => ls) (m *> pure Reply.done) g := (Spares.of_still h atomic quiet).seqRight
  have plain {m : Emit Unit} (h : ∀ g, Plain (fun _ => True) m g) :
      Spares (fun _ => ls) (m *> pure Reply.done) g := still (Plain.atomic h) (Plain.stays h)
  cases c with
  | programStart => exact (spares_programStart h).seqRight
  | programEnd => exact (spares_programEnd h).seqRight
  | declareGlobal id kind =>
    exact still (atomic_declareGlobal id kind) still_declareGlobal
  | declareGlobalInit id v =>
    exact still (atomic_declareGlobalInit id v) (still_declareGlobalInit v)
  | loadLocal slot => exact plain fun _ => plain_loadLocal trivial
  | storeLocal slot => exact plain fun _ => plain_storeLocal trivial
  | load id loc => exact plain fun _ => plain_load (.inr trivial)
  | store id loc => exact plain fun _ => plain_store (.inr trivial)
  | loadInt n => exact plain fun _ => plain_loadInt
  | loadConst v => exact plain fun _ => plain_loadConst v
  | operation op => exact plain fun _ => plain_operation op
  | relation op => exact (spares_relation h).seqRight
  | printBegin => exact still atomic_printBegin still_printBegin
  | printEnd kind newline =>
    exact still (atomic_printEnd kind newline) still_printEnd
  | beginFunction f => exact (spares_beginFunction h f).seqRight
  | endFunction => exact (spares_endFunction h).seqRight
  | beginMain => exact (spares_beginMain h).seqRight
  | endMain => exact (spares_endMain h).seqRight
  | returnValue => exact plain fun _ => plain_returnValue
  | returnVoid => exact plain fun _ => plain_returnVoid
  | invoke f given => exact plain fun _ => plain_invoke f given
  | reserve n => exact (spares_reserve h n).map
  | define l => exact (spares_define h fun mem => discreet l mem rfl).seqRight
  | goto l => exact (spares_jump h).seqRight
  | branch code l => exact (spares_branchCode h l).map
  | ifBegin => exact (spares_ifBegin h).map
  | otherwise id => exact (spares_otherwise h).seqRight
  | ifEnd id => exact (spares_ifEnd h).seqRight
  | loopBegin => exact (spares_loopBegin h).map
  | loopTest id => exact (spares_loopTest h).seqRight
  | loopEnd id => exact (spares_loopEnd h).seqRight
  | _ => exact plain fun _ => plain_instr rfl rfl rfl

namespace Generator

/-- One call keeps the pledges, with those of a block that it begins. -/
theorem Pledged.step (h : Pledged ls g) {c : Call} (discreet : ∀ l ∈ ls, c ≠ .define l) :
    Pledged (ls ++ c.taken g) (g.step c).2 := by
  have eq : ls ++ c.taken g = if c.isBlock then ls ++ g.since (g.step c).2 else ls := by
    unfold Call.taken
    split <;> simp
  rw [eq]
  have spares := c.spares h discreet
  rcases Emit.writes_or_refused c.perform g with ⟨r, w⟩ | ⟨f, r⟩
  · exact spares.carried r _ w
  · exact (spares.refused f _ r).1

theorem Pledged.close (h : Pledged ls g) {broken : Option String} :
    Pledged ls (g.close broken).2 := by
  unfold Generator.close
  split
  · exact h
  · exact h.keep rfl rfl h.counted rfl (.inr rfl) fun l s hs _ _ => hs

/-! ## Runs -/

/-- The labels that an action reserves for a branch or a loop. -/
def taken (g : Generator) : Action → List Label
  | .call c => c.taken g
  | .close _ => []

/-- A client that begins with the program `g` never defines a label that a branch or a loop reserved
for itself; `ls` are those that were reserved before. -/
def Discreet (g : Generator) (ls : List Label) : List Action → Prop
  | [] => True
  | a :: as => (∀ l ∈ ls, a ≠ .call (.define l)) ∧ Discreet (g.act a) (ls ++ g.taken a) as

theorem Pledged.acted (h : Pledged ls g) {a : Action} (discreet : ∀ l ∈ ls, a ≠ .call (.define l)) :
    Pledged (ls ++ g.taken a) (g.act a) := by
  cases a with
  | call c => exact h.step fun l mem eq => discreet l mem (congrArg _ eq)
  | close broken => exact h.close.mono (subset_append_left _ _)

/-- The pledges hold before every action of a discreet client, by induction on those before it. -/
theorem Pledged.run (h : Pledged ls g) {before : List Action} {a : Action} {after : List Action}
    (discreet : Discreet g ls (before ++ a :: after)) :
    ∃ ls', Pledged ls' (before.foldl act g) ∧ ∀ l ∈ ls', a ≠ .call (.define l) := by
  induction before generalizing g ls with
  | nil => exact ⟨ls, h, discreet.1⟩
  | cons b before ih => exact ih (h.acted discreet.1) discreet.2

/-- Whatever a client did with a program from its beginning, as long as it never defines a label
that a branch or a loop reserved for itself: a call that is refused leaves the program what it was.
Its text, the number of its lines and labels, the state of every label, the phase, the depth, the
open method, the prints that are begun and the mark of terminal lines are the same. Only notes about
branches and loops can differ, and these only after the program was closed. -/
theorem refused_leaves_no_trace (cls : String) (o : Options) (before after : List Action) (c : Call)
    (discreet : Discreet (.new cls o) [] (before ++ .call c :: after)) (f : Fault) (g' : Generator)
    (refused : (before.foldl act (.new cls o)).step c = (.error f, g')) :
    Emit.Untouched (before.foldl act (.new cls o)) g' := by
  obtain ⟨ls, pledged, foreign⟩ := pledged_new.run discreet
  have spares := c.spares pledged fun l mem eq => foreign l mem (congrArg _ eq)
  exact (spares.refused f g' refused).2

/-- A method cannot be ended inside a branch, and the attempt changes nothing. -/
theorem refused_leaves_no_trace_inside_branch :
    let before : List Action := [.call .programStart, .call .beginMain, .call .ifBegin]
    Discreet (.new "P" .standard) [] (before ++ [.call .endMain]) ∧
      ∃ f g', (before.foldl act (.new "P" .standard)).step .endMain = (.error f, g') ∧
        Emit.Untouched (before.foldl act (.new "P" .standard)) g' := by
  intro before
  have discreet : Discreet (.new "P" .standard) [] (before ++ [.call .endMain]) :=
    ⟨nofun, nofun, nofun, nofun, trivial⟩
  let opened : Generator := [.call .programStart, .call .beginMain].foldl act (.new "P" .standard)
  have counted : opened.labels.Counted :=
    ((pledged_new : Pledged [] _).step (c := .programStart) (by simp)).step
      (c := .beginMain) (by simp) |>.counted
  obtain ⟨id, branched, w, l, branching⟩ :=
    (Emit.serves_ifBegin (g := opened) (F := fun _ => False) rfl counted).writes
  have same : before.foldl act (.new "P" .standard) = branched :=
    congrArg Prod.snd (w.map Reply.block)
  obtain ⟨-, pending⟩ := branching.leaves.pending l (by simp [IfBlock.target?])
  refine ⟨discreet, ?_⟩
  rcases Emit.writes_or_refused (Call.endMain.perform) branched with ⟨r, w'⟩ | ⟨f, r⟩
  · obtain ⟨_, _, w'', -⟩ := Emit.writes_bind.mp w'
    obtain ⟨-, -, none, -⟩ := Emit.writes_endFunction.mp (Emit.writes_endMain.mp w'').2
    have mem := branching.leaves.counted.pending pending
    rw [none] at mem
    cases mem
  · rw [same]
    refine ⟨f, _, r, ?_⟩
    have := refused_leaves_no_trace "P" .standard before [] .endMain discreet f _ (same ▸ r)
    rwa [same] at this

end Generator

end Jasm.Assembly
