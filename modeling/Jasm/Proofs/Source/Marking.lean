import Jasm.Proofs.Diagnostic.Replaying
import Jasm.Proofs.Source.Tracking

/-!
# What a walk warns of

A walk warns of a variable that is read before anything was assigned to it. It keeps one set of the
variables that were assigned to so far, from the first statement to the last. The marks of a state
of the walk say the same of the names of the open blocks. A walk without errors and without such
warnings changes them as `track` does.
-/

namespace Jasm

open Stack List Option
open Program (Expr Stmt)

namespace Compile

open Source (Marks track trackAll)

variable {α β : Type}

/-! ## Marks of a walk -/

/-- What is declared counts as assigned if it is, or if it is no variable. -/
def counts (assigned : Bool) : Symbol → Bool
  | .variable .. => assigned
  | _ => true

def marksOf (assigned : List (Nat × String)) : List (Scope Symbol) → Marks
  | [] => []
  | s :: rest =>
    (fun name => (s.get? name).map fun e =>
      counts (assigned.contains (rest.length + 1, name)) e.item) :: marksOf assigned rest

/-- A name is declared in the scope at a depth. -/
def DeclaredAt (name : String) (depth : Nat) : List (Scope Symbol) → Prop
  | [] => False
  | s :: rest => depth = rest.length + 1 ∧ (s.get? name).isSome ∨ DeclaredAt name depth rest

def State.marks (c : State) : Marks := marksOf c.assigned c.stack.inner

/-- Only what is declared was assigned to. -/
def State.Noted (c : State) : Prop :=
  ∀ v ∈ c.assigned, v.1 = 0 ∨ DeclaredAt v.2 v.1 c.stack.inner

section

variable {assigned assigned' : List (Nat × String)} {inner : List (Scope Symbol)} {depth : Nat}
  {name : String} {global : Scope Symbol} {e : Entry Symbol}

theorem DeclaredAt.le (h : DeclaredAt name depth inner) : depth ≤ inner.length := by
  induction inner with
  | nil => exact h.elim
  | cons s rest ih =>
    rw [length_cons]
    rcases h with ⟨rfl, -⟩ | h
    · exact Nat.le_refl _
    · exact Nat.le_succ_of_le (ih h)

theorem declared_of_findIn (h : findIn global name inner = some (depth, e)) :
    depth = 0 ∨ DeclaredAt name depth inner := by
  induction inner with
  | nil =>
    obtain ⟨_, -, heq⟩ := map_eq_some_iff.mp h
    cases heq
    exact .inl rfl
  | cons s rest ih =>
    rw [findIn] at h
    cases hs : s.get? name with
    | some e' =>
      rw [hs] at h
      cases h
      exact .inr (.inl ⟨rfl, by simp [hs]⟩)
    | none =>
      rw [hs] at h
      exact (ih h).imp_right .inr

theorem marksOf_congr (h : ∀ d ≤ inner.length, 0 < d → ∀ name,
    assigned'.contains (d, name) = assigned.contains (d, name)) :
    marksOf assigned' inner = marksOf assigned inner := by
  induction inner with
  | nil => rfl
  | cons s rest ih =>
    rw [marksOf, marksOf, ih fun d le => h d (Nat.le_succ_of_le le)]
    simp only [h (rest.length + 1) (Nat.le_refl _) (Nat.succ_pos _)]

theorem readable_of_findIn (global : Scope Symbol)
    (h : ∀ depth e, findIn global name inner = some (depth, e) →
      counts (assigned.contains (depth, name)) e.item = true) :
    (marksOf assigned inner).readable name = true := by
  induction inner with
  | nil => rfl
  | cons s rest ih =>
    rw [marksOf, Marks.readable]
    cases hs : s.get? name with
    | some e => exact h _ e (by rw [findIn, hs])
    | none => exact ih fun depth e found => h depth e (by rw [findIn, hs]; exact found)

theorem contains_cons_ne {d : Nat} (h : d ≠ depth) (other : String) :
    ((depth, name) :: assigned).contains (d, other) = assigned.contains (d, other) := by
  simp [h]

theorem marksOf_assign {id : String} {v : Value}
    (found : findIn global name inner = some (depth, e)) (item : e.item = .variable id v) :
    marksOf ((depth, name) :: assigned) inner = (marksOf assigned inner).assign name := by
  induction inner with
  | nil => rfl
  | cons s rest ih =>
    rw [marksOf, marksOf, Marks.assign]
    rw [findIn] at found
    cases hs : s.get? name with
    | some e' =>
      rw [hs] at found
      cases found
      have outside : marksOf ((rest.length + 1, name) :: assigned) rest = marksOf assigned rest :=
        marksOf_congr fun d le _ => contains_cons_ne (by omega)
      rw [outside, if_pos (by simp)]
      congr 1
      funext other
      by_cases same : other = name
      · subst same
        simp [hs, item, counts]
      · simp [same]
    | none =>
      rw [hs] at found
      have lower : rest.length + 1 ≠ depth := by
        rcases declared_of_findIn found with rfl | declared
        · omega
        · have := declared.le
          omega
      rw [ih found, if_neg (by simp)]
      simp only [contains_cons_ne lower]

theorem marksOf_filter :
    marksOf (assigned.filter (·.1 < inner.length + 1)) inner = marksOf assigned inner := by
  apply marksOf_congr
  intro d le _ name
  have open_ : d < inner.length + 1 := by omega
  rw [Bool.eq_iff_iff, contains_iff_mem, contains_iff_mem, mem_filter]
  simp [open_]

theorem marksOf_push {s : Scope Symbol} {x : Symbol} {slot : Option Nat}
    (new : assigned.contains (inner.length + 1, x.name) = false) :
    marksOf assigned (s.push x.declaration slot :: inner) =
      (marksOf assigned (s :: inner)).declare x.name (counts false x) := by
  rw [marksOf, marksOf, Marks.declare]
  congr 1
  funext name
  rw [Scope.get?_push]
  by_cases same : name = x.name
  · subst same
    simp only [Symbol.declaration, if_true, Function.update_self, map_some, new]
  · have other : name ≠ x.declaration.name := same
    simp [same, other]

end

/-! ## Runs without errors and warnings -/

/-- No read of a variable that does not count as assigned was reported. All findings are known. -/
def State.Hushed (c : State) : Prop :=
  ∃ seen next, c.reporter = .unique seen next ∧ ∀ key ∈ seen, key.code ≠ .semaUninitRead

theorem hushed_of_report {r : Reporter} {d : Diagnostic} {seen : List ReportKey} {next : Reporter}
    (h : r.report d = .unique seen next) (hushed : ∀ key ∈ seen, key.code ≠ .semaUninitRead) :
    d.code ≠ .semaUninitRead ∧ ∃ seen next, r = .unique seen next ∧
      ∀ key ∈ seen, key.code ≠ .semaUninitRead := by
  cases r with
  | discard => cases h
  | bag b => cases h
  | unique seen' next =>
    rw [Reporter.report] at h
    split at h
    · next known =>
        cases h
        exact ⟨hushed _ (by simpa using known), seen, next, rfl, hushed⟩
    · cases h
      rw [forall_mem_cons] at hushed
      exact ⟨hushed.1, seen', next, rfl, hushed.2⟩

theorem hushed_of_reportAll {r : Reporter} {ds : List Diagnostic} {c : State}
    (hushed : (c.withReporter (r.reportAll ds)).Hushed) :
    (∀ d ∈ ds, d.code ≠ .semaUninitRead) ∧ (c.withReporter r).Hushed := by
  induction ds generalizing r with
  | nil => exact ⟨by simp, hushed⟩
  | cons d rest ih =>
    obtain ⟨silent, seen, next, h, hushed⟩ := ih hushed
    have first := hushed_of_report h hushed
    exact ⟨forall_mem_cons.mpr ⟨first.1, silent⟩, first.2⟩

/-- Every run of a step without an error and without a warning ensures `P`. -/
abbrev Heeds (m : Walk α) (P : State → α → State → Prop) : Prop :=
  Ensures m fun c a c' => c'.Hushed → P c a c'

namespace Heeds

variable {m m' : Walk α} {k : α → Walk β} {P Q : State → α → State → Prop}
  {R : State → β → State → Prop}

theorem of_ensures (h : Ensures m P) : Heeds m P := h.mono fun _ _ _ holds _ => holds

theorem mono (h : Heeds m P) (weaker : ∀ c a c', P c a c' → Q c a c') : Heeds m Q :=
  Ensures.mono h fun c a c' holds hushed => weaker c a c' (holds hushed)

theorem pure {a : α} (h : ∀ c, P c a c) : Heeds (pure a) P := .of_ensures (.pure h)

theorem hushed (h : Heeds m P) : Ensures m fun c a c' => c'.Hushed → c.Hushed ∧ P c a c' where
  honest := h.honest
  holds c a c' run clean hushed := by
    refine ⟨?_, h.holds c a c' run clean hushed⟩
    obtain ⟨ds, a', c₁, acts⟩ := h.honest c
    rw [acts.run_eq] at run
    cases run
    exact (hushed_of_reportAll (c := c) hushed).2

theorem bind (first : Heeds m P)
    (second : ∀ a, Heeds (k a) fun c₁ b c' => ∀ c, P c a c₁ → R c b c') : Heeds (m >>= k) R :=
  Ensures.bind first fun a => (second a).hushed.mono fun _ _ _ holds c before hushed =>
    (holds hushed).2 c (before (holds hushed).1)

theorem ite {p : Prop} [Decidable p] (yes : p → Heeds m P) (no : ¬ p → Heeds m' P) :
    Heeds (if p then m else m') P := Ensures.ite yes no

theorem get_bind {k : State → Walk β} (blind : ∀ c r, k (c.withReporter r) = k c)
    (h : ∀ s, Heeds (k s) fun c b c' => c = s → R c b c') :
    Heeds ((MonadState.get : Walk State) >>= k) R :=
  Ensures.get_bind blind fun s => Ensures.mono (h s) fun _ _ _ holds same hushed =>
    holds hushed same

theorem of_run (honest : Honest m) (h : ∀ c, P c (m.run c).1 (m.run c).2) : Heeds m P :=
  .of_ensures (.of_run honest h)

end Heeds

/-- Neither the scopes nor what counts as assigned change. -/
structure State.Steady (c c' : State) : Prop where
  stack : c'.stack = c.stack
  assigned : c'.assigned = c.assigned

namespace State.Steady

variable {c c₁ c₂ : State}

theorem refl (c : State) : c.Steady c := ⟨rfl, rfl⟩

theorem trans (first : c.Steady c₁) (second : c₁.Steady c₂) : c.Steady c₂ :=
  ⟨second.stack.trans first.stack, second.assigned.trans first.assigned⟩

theorem marks (h : c.Steady c₁) : c₁.marks = c.marks := by
  rw [State.marks, State.marks, h.stack, h.assigned]

theorem noted (h : c.Steady c₁) (noted : c.Noted) : c₁.Noted := by
  rw [State.Noted, h.stack, h.assigned]
  exact noted

end State.Steady

namespace Walk

open State

variable {cfg : Config} {pos : Position} {m : Walk (Option α)} {names : List String}
  {c c₁ c' c₂ : State} {name : String} {r : Option α} {f g : Marks → Option Marks}

/-- Every run of a step without an error and without a warning leaves the scopes and what counts as
assigned. -/
abbrev Rests (m : Walk α) : Prop := Heeds m fun c _ c' => c.Steady c'

theorem rests_emit {step : Assembly.Emit α} : Rests (emit cfg pos step) := by
  refine .of_run (honest_emit cfg) fun c => ?_
  cases hf : c.failed with
  | true =>
    rw [run_emit_of_failed cfg pos step hf]
    exact .refl c
  | false =>
    rw [run_emit cfg pos step hf]
    rcases step.run.run c.generator with ⟨f | a, g⟩ <;> exact ⟨rfl, rfl⟩

theorem rests_allocate {length : Nat} : Rests (allocate length) :=
  .of_run honest_allocate fun _ => ⟨rfl, rfl⟩

theorem rests_write {step : Assembly.Emit α} : Rests (do let _ ← emit cfg pos step) :=
  .bind rests_emit fun _ => .pure fun _ _ h => h

/-- A question about values of names was answered, and all of these names count as assigned. -/
def Readable (names : List String) (c : State) (r : Option α) (c' : State) : Prop :=
  c.Steady c' ∧ r ≠ none ∧ ∀ name ∈ names, c.marks.readable name = true

theorem readable_of_ready (h : c.Ready name) :
    c.marks.readable name = true := by
  refine readable_of_findIn c.stack.global fun depth e found => ?_
  cases item : e.item with
  | «variable» id v => exact h depth e id v found item
  | _ => rfl

theorem heeds_of_asks {f : Scopes → Option α} (h : ∀ c, Asks m c f names) :
    Heeds m fun c r c' => Readable names c r c' ∧ ∀ a ∈ r, f c.scopes = some a := by
  refine ⟨(ensures_of_asks h).honest, fun c r c' run clean hushed => ?_⟩
  obtain ⟨a, hr, -⟩ := (ensures_of_asks h).holds c r c' run clean
  have some : r ≠ none := by simp [hr]
  obtain ⟨ds, r', c₁, finds, same, answered⟩ := h c
  rw [finds.run_eq] at run
  cases run
  have silent := (hushed_of_reportAll (c := c₁) hushed).1
  exact ⟨⟨⟨same.stack, same.assigned⟩, some, fun name hn =>
    readable_of_ready (answered.ready some silent name hn)⟩, answered.answer⟩

theorem heeds_find {name : String} : Heeds (find cfg pos name) fun c r c' =>
    c.Steady c' ∧ ∃ found, r = some found ∧ c.stack.find? name = some found := by
  refine (heeds_of_asks asks_find).mono fun c r c' ⟨readable, answer⟩ => ?_
  obtain ⟨found, rfl⟩ := ne_none_iff_exists'.mp readable.2.1
  exact ⟨readable.1, found, rfl, answer found rfl⟩

theorem heeds_typeExpr {e : Expr} : Heeds (typeExpr cfg pos e) (Readable e.names) :=
  (heeds_of_asks (asks_typeExpr e)).mono fun _ _ _ h => h.1

/-! ## Statements -/

/-- The marks change as `f` tells. -/
def Marked (f : Marks → Option Marks) (c c' : State) : Prop :=
  c.Noted → c'.Noted ∧ f c.marks = some c'.marks

theorem Marked.of_readable (h : Readable names c r c₁) {f : Marks → Marks}
    (rest : Marked (fun M => some (f M)) c₁ c') :
    Marked (fun M => M.reading names (f M)) c c' := by
  intro noted
  obtain ⟨steady, -, readable⟩ := h
  obtain ⟨noted', eq⟩ := rest (steady.noted noted)
  rw [steady.marks] at eq
  refine ⟨noted', ?_⟩
  show Marks.reading names c.marks _ = _
  unfold Marks.reading
  rw [if_pos (all_eq_true.mpr readable)]
  exact eq

theorem Marked.after (next : Marked f c₁ c₂) (h : c.Steady c₁) : Marked f c c₂ := by
  intro noted
  obtain ⟨noted', eq⟩ := next (h.noted noted)
  exact ⟨noted', h.marks ▸ eq⟩

theorem Marked.still (first : Marked f c c₁) (h : c₁.Steady c₂) : Marked f c c₂ := by
  intro noted
  obtain ⟨noted', eq⟩ := first noted
  exact ⟨h.noted noted', h.marks ▸ eq⟩

theorem Marked.then (first : Marked f c c₁) (second : Marked g c₁ c₂) :
    Marked (fun M => (f M).bind g) c c₂ := by
  intro noted
  obtain ⟨noted₁, eq₁⟩ := first noted
  obtain ⟨noted₂, eq₂⟩ := second noted₁
  refine ⟨noted₂, ?_⟩
  show (f c.marks).bind g = _
  rw [eq₁]
  exact eq₂

/-- Every run of a step without an error and without a warning changes the marks as `f` tells. -/
abbrev Follows (m : Walk α) (f : Marks → Option Marks) : Prop :=
  Heeds m fun c _ c' => Marked f c c'

namespace Follows

variable {m m' : Walk α} {k : α → Walk β}

theorem congr (h : Follows m f) (eq : ∀ M, g M = f M) : Follows m g := funext eq ▸ h

theorem stay (h : Rests m) : Follows m some :=
  h.mono fun _ _ _ steady noted => ⟨steady.noted noted, by rw [steady.marks]⟩

theorem ite {p : Prop} [Decidable p] (yes : p → Follows m f) (no : ¬ p → Follows m' f) :
    Follows (if p then m else m') f := Heeds.ite yes no

theorem bind (first : Follows m f) (second : ∀ a, Follows (k a) g) :
    Follows (m >>= k) fun M => (f M).bind g :=
  Heeds.bind first fun a => (second a).mono fun _ _ _ next _ before => before.then next

theorem after (first : Rests m) (second : ∀ a, Follows (k a) f) : Follows (m >>= k) f :=
  Heeds.bind first fun a => (second a).mono fun _ _ _ next _ steady => next.after steady

theorem still (first : Follows m f) (second : ∀ a, Rests (k a)) : Follows (m >>= k) f :=
  Heeds.bind first fun a => (second a).mono fun _ _ _ steady _ before => before.still steady

theorem get_bind {k : State → Walk β} (blind : ∀ c r, k (c.withReporter r) = k c)
    (h : ∀ s, Follows (k s) f) : Follows ((MonadState.get : Walk State) >>= k) f :=
  Heeds.get_bind blind fun s => (h s).mono fun _ _ _ marked _ => marked

theorem read {m : Walk (Option α)} {k : Option α → Walk β} {b : β} {f : Marks → Marks}
    (first : Heeds m (Readable names)) (quiet : k none = pure b)
    (second : ∀ a, Follows (k (some a)) fun M => some (f M)) :
    Follows (m >>= k) fun M => M.reading names (f M) := by
  refine Heeds.bind first fun r => ?_
  cases r with
  | none =>
    rw [quiet]
    exact .pure fun _ _ h => absurd rfl h.2.1
  | some a => exact (second a).mono fun _ _ _ marked _ readable => .of_readable readable marked

end Follows

/-- What was declared last is found in the innermost scope. -/
def Latest (x : Symbol) (c : State) : Prop :=
  ∃ slot, c.stack.find? x.name = some (c.topDepth, ⟨x.form, x, slot⟩)

theorem heeds_insert {x : Symbol} : Heeds (insert cfg pos x) fun c r c' => r ≠ none ∧
    Marked (fun M => some (M.declare x.name (counts false x))) c c' ∧ Latest x c' := by
  refine .of_ensures (ensures_inserted.mono ?_)
  rintro c _ c' ⟨slot, stack', rfl, inserted, same⟩
  have assigned : c'.assigned = c.assigned := by rw [same]
  obtain ⟨new, -, scopes⟩ := Scopes.insert?_eq_some inserted
  have stack : c'.stack = c.stack.setTop (c.stack.top.push x.declaration slot) :=
    same ▸ congrArg Scopes.stack scopes
  have own (s : Scope Symbol) : (s.push x.declaration slot).get? x.name =
    some ⟨x.form, x, slot⟩ := by
    rw [Scope.get?_push, if_pos (show x.name = x.declaration.name from rfl)]
    rfl
  cases hi : c.stack.inner with
  | nil =>
    have inner' : c'.stack.inner = [] := by rw [stack, setTop, hi]
    refine ⟨by simp, fun noted => ⟨?_, ?_⟩, slot, ?_⟩
    · rw [Noted, assigned, inner', ← hi]
      exact noted
    · rw [marks, marks, inner', hi]
      rfl
    · rw [stack, Stack.find?, topDepth, depth, inner', setTop, hi, findIn, own]
      rfl
  | cons s rest =>
    have top : c.stack.top = s := by rw [top, hi]; rfl
    have new : s.get? x.name = none := top ▸ new
    have inner' : c'.stack.inner = s.push x.declaration slot :: rest := by
      rw [stack, setTop, hi, top]
    refine ⟨by simp, fun noted => ⟨?_, ?_⟩, slot, ?_⟩
    · intro v hv
      rw [assigned] at hv
      have declared := noted v hv
      rw [hi] at declared
      rw [inner']
      refine declared.imp_right fun declared => declared.imp_left fun here => ⟨here.1, ?_⟩
      rw [Scope.get?_push]
      split
      · rfl
      · exact here.2
    · have fresh : c.assigned.contains (rest.length + 1, x.name) = false := by
        rw [Bool.eq_false_iff, Ne, contains_iff_mem]
        intro mem
        have declared := noted _ mem
        rw [hi] at declared
        rcases declared with zero | ⟨-, some⟩ | declared
        · cases zero
        · simp [new] at some
        · have := declared.le
          omega
      rw [marks, marks, assigned, inner', hi, marksOf_push fresh]
    · rw [Stack.find?, topDepth, depth, inner', findIn, own]
      rfl

theorem heeds_insertLocal {name : String} {kind : Kind} :
    Heeds (insertLocal cfg pos name kind) fun c r c' => r = true ∧
      Marked (fun M => some (M.declare name false)) c c' ∧ Latest (.newVariable name kind) c' := by
  refine .bind heeds_insert fun slot => ?_
  cases slot with
  | none => exact .pure fun _ _ h => absurd rfl h.1
  | some slot =>
    refine .get_bind (fun _ _ => rfl) fun s => .ite (fun _ => ?_) fun _ =>
      ensures_error_pure
    exact .pure fun _ _ _ h => ⟨rfl, h.2⟩

theorem noted_assigned {depth : Nat} {e : Entry Symbol} {id : String} {v : Value}
    (found : c.stack.find? name = some (depth, e)) (item : e.item = .variable id v)
    (noted : c.Noted) : { c with assigned := (depth, name) :: c.assigned }.Noted ∧
      { c with assigned := (depth, name) :: c.assigned }.marks = c.marks.assign name :=
  ⟨forall_mem_cons.mpr ⟨declared_of_findIn found, noted⟩, marksOf_assign found item⟩

theorem rests_store {name : String} : Rests (store cfg pos name) := by
  refine .bind heeds_find fun found => ?_
  rcases found with _ | ⟨depth, e⟩
  · exact .pure fun _ _ h => h.1
  · refine .get_bind (fun _ _ => rfl) fun s => rests_write.mono ?_
    exact fun _ _ _ second _ _ first => first.1.trans second

theorem heeds_markTopAssigned {name : String} : Heeds (markTopAssigned name) fun c _ c' =>
    c' = { c with assigned := (c.topDepth, name) :: c.assigned } :=
  .of_run ensures_markTopAssigned.honest fun _ => rfl

theorem marked_latest {kind : Kind} (declared : Marked (fun M => some (M.declare name false)) c c₁)
    (latest : Latest (.newVariable name kind) c₁)
    (assigned : c₂ = { c₁ with assigned := (c₁.topDepth, name) :: c₁.assigned }) :
    Marked (fun M => some (M.declare name true)) c c₂ := by
  intro noted
  obtain ⟨noted₁, eq₁⟩ := declared noted
  obtain ⟨slot, found⟩ := latest
  subst assigned
  obtain ⟨noted₂, eq₂⟩ := noted_assigned found rfl noted₁
  refine ⟨noted₂, congrArg some (Eq.trans ?_ eq₂.symm)⟩
  have eq₁ : c.marks.declare name false = c₁.marks := Option.some.inj eq₁
  show _ = Marks.assign name c₁.marks
  rw [← eq₁]
  cases c.marks with
  | nil => rfl
  | cons l rest => simp [Marks.declare, Marks.assign]

theorem follows_declareLocal {name : String} {kind : Kind} {init : Option Typed} :
    Follows (declareLocal cfg pos name kind init) fun M => some (M.declare name init.isSome) := by
  cases init with
  | none => exact Heeds.bind heeds_insertLocal fun _ => .pure fun _ _ h => h.2.1
  | some t =>
    refine .after rests_emit fun _ => ?_
    refine Heeds.bind heeds_insertLocal fun fits => .ite (fun _ => ?_) fun no => ?_
    · refine .bind heeds_markTopAssigned fun _ => rests_store.mono ?_
      intro c₂ _ c₃ stored c₁ assigned c declared
      exact (marked_latest declared.2.1 declared.2.2 assigned).still stored
    · exact .pure fun _ _ h => absurd h.1 no

theorem follows_declareGlobal {name : String} {kind : Kind} {init : Option Typed} :
    Follows (declareGlobal cfg pos name kind init) fun M => some (M.declare name true) := by
  refine .ite (fun _ => ensures_error_pure) fun _ => ?_
  refine Heeds.bind heeds_insert fun slot =>
    .ite (fun no => ?_) fun _ => ?_
  · exact .pure fun _ _ h => absurd (by simpa using no) h.1
  · refine .bind heeds_markTopAssigned fun _ => rests_write.mono ?_
    intro c₂ _ c' steady c₁ assigned c inserted
    exact (marked_latest inserted.2.1 inserted.2.2 assigned).still steady

theorem heeds_typeInit {name : String} {kind : Kind} {init : Option Expr} :
    Heeds (typeInit cfg pos name kind init) fun c r c' =>
      (∃ typed, r = some typed ∧ typed.isSome = init.isSome) ∧
        Readable ((init.map Expr.names).getD []) c r c' := by
  refine (heeds_of_asks asks_typeInit).mono fun c r c' ⟨readable, answer⟩ => ?_
  obtain ⟨typed, rfl⟩ := ne_none_iff_exists'.mp readable.2.1
  refine ⟨⟨typed, rfl, ?_⟩, readable⟩
  cases init with
  | none =>
    cases answer typed rfl
    rfl
  | some e =>
    obtain ⟨t, -, rfl⟩ := map_eq_some_iff.mp (answer typed rfl)
    rfl

theorem follows_declare {d : Program.Declaration} :
    Follows (declare cfg pos d) (track (.declare pos d)) := by
  cases d with
  | «variable» name kind init =>
    refine .ite (fun _ => ensures_error_pure) fun storable => ?_
    refine Heeds.bind heeds_typeInit fun r => ?_
    cases r with
    | none => exact .pure fun _ _ h => absurd rfl h.2.2.1
    | some typed =>
      refine .get_bind (fun _ _ => rfl) fun s => .ite (fun global => ?_) fun _ => ?_
      · refine follows_declareGlobal.mono ?_
        intro c₁ _ c' marked hs c ⟨_, readable⟩ noted
        subst hs
        have marked := Marked.of_readable readable marked noted
        rw [readable.1.stack] at global
        rw [marks, List.isEmpty_iff.mp global] at marked ⊢
        exact ⟨marked.1, (Source.track_variable (by simpa using storable)).trans marked.2⟩
      · refine follows_declareLocal.mono ?_
        intro c₁ _ c' marked _ c ⟨⟨typed', same, given⟩, readable⟩ noted
        cases same
        rw [given] at marked
        have marked := Marked.of_readable readable marked noted
        exact ⟨marked.1, (Source.track_variable (by simpa using storable)).trans marked.2⟩
  | constant name kind init =>
    refine .congr (.read (f := (Marks.declare name true)) heeds_typeExpr rfl
      fun t => ?_) fun M => by rw [track]
    dsimp only
    cases kind.filter (· ≠ t.static.kind) with
    | some k => exact ensures_error
    | none =>
      refine .ite (fun _ => ensures_error) fun known => ?_
      rw [Symbol.newConstant, if_pos (by simpa using known)]
      exact Heeds.bind heeds_insert fun _ => .pure fun _ _ inserted => inserted.2.1
  | array name kind length values =>
    show Heeds (declareArray cfg pos name kind length values) _
    unfold declareArray
    cases new : ArrayVar.new name kind length with
    | error f => exact ensures_error
    | ok a₀ =>
      refine Heeds.bind rests_allocate fun _ => ?_
      cases filled : fillArray a₀ 0 values with
      | error fault => exact ensures_error
      | ok a =>
        refine Heeds.bind heeds_insert fun _ => .pure ?_
        intro c₁ c₀ inserted c rests noted
        have name_eq : (Symbol.array a).name = name :=
          (name_of_fillArray filled).trans (ArrayVar.name_of_new new)
        rw [track, ← name_eq]
        exact inserted.2.1.after rests noted

theorem follows_assign {name : String} {e : Expr} :
    Follows (assign cfg pos name e) (track (.assign pos name e)) := by
  have target : Heeds (findTarget cfg pos name) fun c r c' => c.Steady c' ∧
      ∃ depth form id v slot, c.stack.find? name = some (depth, ⟨form, .variable id v, slot⟩) ∧
        r = some (depth, v.kind) := by
    refine (heeds_of_asks asks_findTarget).mono fun c r c' ⟨readable, answer⟩ => ?_
    obtain ⟨target, rfl⟩ := ne_none_iff_exists'.mp readable.2.1
    obtain ⟨depth, form, id, v, slot, found, rfl⟩ := Scopes.target?_eq_some (answer target rfl)
    exact ⟨readable.1, depth, form, id, v, slot, found, rfl⟩
  refine Heeds.bind heeds_typeExpr fun typed => .bind target fun target => ?_
  rcases typed with _ | t
  · exact .pure fun _ _ _ _ h => absurd rfl h.2.1
  · rcases target with _ | ⟨depth, kind⟩
    · exact .pure fun _ _ ⟨_, _, _, _, _, _, _, h⟩ => by cases h
    · refine .ite (fun _ => ensures_error) fun _ => ?_
      refine .bind rests_emit fun _ => ?_
      refine .bind (P := fun c _ c' => c' = { c with assigned := (depth, name) :: c.assigned })
        (.of_run honest_markAssigned fun _ => rfl) fun _ => ?_
      refine rests_store.mono ?_
      intro c₄ _ c' stored c₃ assigned c₂ written c₁ ⟨steady, _, _, _, _, _, found, same⟩ c readable
      cases same
      have before := steady.trans written
      rw [← before.stack] at found
      subst assigned
      have marked : Marked (fun M => some (M.assign name)) c₃ c' := fun noted => by
        obtain ⟨noted', eq⟩ := noted_assigned found rfl noted
        exact ⟨stored.noted noted', congrArg some (eq.symm.trans stored.marks.symm)⟩
      intro noted
      rw [track]
      exact Marked.of_readable readable (marked.after before) noted

theorem follows_print {newline : Bool} {e : Expr} :
    Follows (print cfg pos newline e) fun M => M.reading e.names M := by
  exact .read heeds_typeExpr rfl fun t => .stay rests_write

theorem follows_condition {e : Expr} :
    Follows (condition cfg pos e) fun M => M.reading e.names M := by
  refine .read heeds_typeExpr rfl fun t => ?_
  exact .ite (fun _ => ensures_error) fun _ => .stay rests_write

theorem follows_ret {e : Option Expr} : Follows (ret cfg pos e) (track (.ret pos e)) := by
  have void : Follows (do let _ ← emit cfg pos Assembly.Emit.returnVoid) (track (.ret pos none)) :=
    .congr (.stay rests_write) fun M => by rw [track]
  refine .get_bind (fun _ _ => rfl) fun s => ?_
  cases s.function with
  | none =>
    refine .ite (fun _ => ensures_error) fun none => ?_
    obtain rfl : e = Option.none := by simpa using none
    exact void
  | some f =>
    show Follows (returnFrom cfg pos f e) _
    unfold returnFrom
    rcases f.result? with _ | want <;> rcases e with _ | e
    · exact void
    · exact ensures_error
    · exact ensures_error
    · refine .congr (.read heeds_typeExpr rfl fun t => ?_) fun M => by rw [track]
      exact .ite (fun _ => ensures_error) fun _ => .stay rests_write

theorem follows_call {name : String} {args : List Expr} : Follows (call cfg pos name args)
    fun M => M.reading (Program.namesOfAll args) M := by
  exact .read ((heeds_of_asks asks_typeCall).mono fun _ _ _ h => h.1) rfl
    fun r => .stay rests_write

/-! ## Bodies -/

theorem follows_enter {method : Bool} : Follows (enter method) fun M => some M.enter := by
  refine .of_run honest_enter fun c noted => ⟨fun v hv => (noted v hv).imp_right .inr, ?_⟩
  have empty (name : String) : ({} : Scope Symbol).get? name = none := by simp [Scope.get?]
  show _ = some (marksOf c.assigned ({} :: c.stack.inner))
  rw [marksOf]
  simp only [empty, map_none]
  rfl

theorem follows_leave : Follows (leave cfg pos) fun M => some M.tail := by
  refine .of_ensures (ensures_left.mono ?_)
  rintro c _ _ ⟨s, rest, inner, rfl⟩ noted
  refine ⟨fun v hv => ?_, ?_⟩
  · obtain ⟨mem, lower⟩ := mem_filter.mp hv
    have lower : v.1 ≠ rest.length + 1 := by
      have : v.1 < rest.length + 1 := by simpa using lower
      omega
    have declared := noted v mem
    rw [inner] at declared
    exact declared.imp_right fun declared => declared.resolve_left fun here => lower here.1
  · show some c.marks.tail = some (marksOf _ rest)
    rw [marksOf_filter, marks, inner]
    rfl

theorem follows_close {step : Assembly.Emit α} :
    Follows (do leave cfg pos; let _ ← emit cfg pos step) fun M => some M.tail :=
  .still follows_leave fun _ => rests_write

theorem reading_eq_bind {M : Marks} {f : Marks → Marks} :
    M.reading names (f M) = (M.reading names M).bind fun M => some (f M) := by
  unfold Marks.reading
  split <;> rfl

theorem follows_openThen {cond : Expr} : Follows (openThen cfg pos cond) fun M =>
    M.reading cond.names M.enter := by
  refine .congr (.bind follows_condition fun _ => .after rests_emit
    fun id => ?_) fun M => reading_eq_bind
  exact .still follows_enter fun _ => .pure .refl

theorem follows_openLoop {cond : Expr} : Follows (openLoop cfg pos cond) fun M =>
    M.reading cond.names M.enter := by
  refine .congr (.after rests_emit fun id => .bind follows_condition
    fun _ => .after rests_emit fun _ => ?_) fun M => reading_eq_bind
  exact .still follows_enter fun _ => .pure .refl

theorem follows_openElse {id : Option Nat} :
    Follows (openElse cfg pos id) fun M => some (Marks.enter M.tail) :=
  .bind follows_leave fun _ => .after rests_emit fun _ => follows_enter

theorem rests_point {s : Stmt} : Rests (point s) :=
  .of_run ensures_point.honest fun _ => ⟨rfl, rfl⟩

theorem heeds_poll : Heeds poll fun c r c' => r = true ∧ c.Steady c' :=
  .of_ensures (ensures_polled.mono fun _ _ _ ⟨going, same⟩ => ⟨going, same ▸ ⟨rfl, rfl⟩⟩)

mutual

/-- A silent walk marks variables as `track` says, one case for each form. -/
theorem follows_stmt : (s : Stmt) → Follows (stmt cfg s) (track s)
  | .declare pos d => by
    rw [stmt]
    exact .after rests_point fun _ => follows_declare
  | .assign pos name e => by
    rw [stmt]
    exact .after rests_point fun _ => follows_assign
  | .print pos newline e => by
    rw [stmt]
    refine .congr (.after rests_point fun _ => follows_print) fun M => ?_
    rw [track]
  | .ret pos e => by
    rw [stmt]
    exact .after rests_point fun _ => follows_ret
  | .call pos name args => by
    rw [stmt]
    refine .congr (.after rests_point fun _ => follows_call) fun M => ?_
    rw [track]
  | .branch pos cond thenBody elseBody => by
    rw [stmt_branch]
    refine .congr (.after rests_point fun _ => .bind follows_openThen fun id =>
      .bind (follows_stmts thenBody) fun _ => (.ite (fun empty => ?_) fun _ => ?_ :
        Follows _ fun M => (trackAll elseBody (Marks.enter M.tail)).bind fun M => some M.tail))
      fun M => ?_
    · refine .congr follows_close fun M => ?_
      rw [List.isEmpty_iff.mp empty, trackAll]
      rfl
    · exact .congr (.bind follows_openElse fun _ =>
        .bind (follows_stmts elseBody) fun _ => follows_close) fun _ => rfl
    · rw [track]
      rfl
  | .loop pos cond body => by
    rw [stmt_loop]
    refine .congr (.after rests_point fun _ => .bind follows_openLoop fun id =>
      .bind (follows_stmts body) fun _ => follows_close) fun M => ?_
    rw [track]
    rfl
  | .block pos body => by
    rw [stmt_block]
    refine .congr (.after rests_point fun _ => .bind follows_enter fun id =>
      .bind (follows_stmts body) fun _ => follows_leave) fun M => ?_
    rw [track]
    rfl

theorem follows_stmts : (ss : List Stmt) → Follows (stmts cfg ss) (trackAll ss)
  | [] => by
    rw [stmts]
    refine .congr (.stay (.pure .refl)) fun M => ?_
    rw [trackAll]
  | s :: rest => by
    rw [stmts]
    refine Heeds.bind heeds_poll fun goesOn => .ite (fun _ => ?_) fun no => ?_
    · refine Heeds.mono (Follows.bind (follows_stmt s) fun _ => follows_stmts rest) ?_
      intro c₁ _ c' marked c polled noted
      rw [trackAll]
      exact marked.after polled.2 noted
    · exact .pure fun _ _ h => absurd h.1 no

end

/-! ## Programs -/

theorem follows_parameters {params : List (String × Kind)} :
    Follows (parameters cfg pos params) fun M => some (M.parameters params) := by
  induction params with
  | nil => exact .stay (.pure .refl)
  | cons param rest ih =>
    refine Heeds.bind heeds_insertLocal fun fits => .ite (fun _ => ?_) fun no => ?_
    · refine .bind heeds_markTopAssigned fun _ => ih.mono ?_
      intro c₂ _ c' others c₁ assigned c declared
      exact (marked_latest declared.2.1 declared.2.2 assigned).then others
    · exact ih.mono fun _ _ _ _ _ h => absurd h.1 no

theorem rests_dumpScopes {title : String} : Rests (dumpScopes title) :=
  .of_run ensures_dumpScopes.honest fun _ => ⟨rfl, rfl⟩

theorem rests_setFunction {f : Option Signature} :
    Rests (modify fun c => { c with function := f }) :=
  .of_run ensures_setFunction.honest fun _ => ⟨rfl, rfl⟩

theorem follows_closeMethod {title : String} {step : Assembly.Emit Unit} :
    Follows (closeMethod cfg pos title step) fun M => some M.tail :=
  .after rests_dumpScopes fun _ => follows_close

theorem follows_closeFunction {f : Program.Function} :
    Follows (closeFunction cfg f) fun M => some M.tail := by
  unfold closeFunction
  cases f.signature.result? with
  | none => exact follows_closeMethod
  | some k =>
    refine .ite (fun _ => ?_) fun _ => follows_closeMethod
    exact .after ensures_error fun _ => follows_closeMethod

theorem follows_openFunction {f : Program.Function} :
    Follows (openFunction cfg f) fun M => some (M.enter.parameters f.params) :=
  .after rests_emit fun _ => .bind follows_enter fun _ =>
    follows_parameters

theorem follows_functionBody {f : Program.Function} : Follows (functionBody cfg f) fun M =>
    (trackAll f.body (M.enter.parameters f.params)).bind fun M => some M.tail := by
  rw [functionBody_eq]
  exact .congr (.bind follows_openFunction fun _ => .bind (follows_stmts f.body)
    fun _ => follows_closeFunction) fun _ => rfl

theorem follows_function {f : Program.Function} : Follows (function cfg f) fun M =>
    (trackAll f.body ((M.declare f.name true).enter.parameters f.params)).bind
      fun M => some M.tail := by
  refine ensures_inSpan (Heeds.bind heeds_insert fun slot =>
    .ite (fun _ => ?_) fun no => ?_) id
  · refine Heeds.mono (Follows.after rests_setFunction fun _ =>
      .still follows_functionBody fun _ => rests_setFunction) ?_
    exact fun _ _ _ body _ inserted => inserted.2.1.then body
  · exact .pure fun _ _ h => absurd h.1 (by simpa using no)

theorem follows_main {body : List Stmt} : Follows (main cfg pos body) fun M =>
    (trackAll body M.enter).bind fun M => some M.tail :=
  ensures_inSpan (Follows.congr (.after rests_emit fun _ =>
    .bind follows_enter fun _ => .bind (follows_stmts body) fun _ =>
      follows_closeMethod) fun _ => rfl) id

/-- Nothing is open outside of methods, so nothing is marked. -/
def Unmarked (c : State) : Prop := c.Noted ∧ c.marks = []

theorem Unmarked.of_marked (unmarked : Unmarked c) (h : Marked f c c')
    (closed : ∀ M, f [] = some M → M = []) : Unmarked c' ∧ f [] = some [] := by
  obtain ⟨noted, eq⟩ := h unmarked.1
  rw [unmarked.2] at eq
  have none := closed _ eq
  exact ⟨⟨noted, none⟩, none ▸ eq⟩

theorem heeds_globals {ds : List (Position × Program.Declaration)} : Heeds (globals cfg ds)
    fun c _ c' => Unmarked c → Unmarked c' ∧ ∀ g ∈ ds, track (.declare g.1 g.2) [] = some [] := by
  induction ds with
  | nil => exact .pure fun c unmarked => ⟨unmarked, by simp⟩
  | cons d rest ih =>
    refine .bind follows_declare fun _ => ih.mono fun c₁ _ c' others c declared out => ?_
    obtain ⟨unmarked, here⟩ := out.of_marked declared fun M h => by
      obtain ⟨_, rfl⟩ := Source.track_declare h
      rfl
    obtain ⟨unmarked', others⟩ := others unmarked
    exact ⟨unmarked', forall_mem_cons.mpr ⟨here, others⟩⟩

theorem tail_of_trackAll {ss : List Stmt} {params : List (String × Kind)} {M : Marks}
    (h : trackAll ss (.parameters params (.enter [])) = some M) : M.tail = [] := by
  obtain ⟨l, hl⟩ := Source.exists_parameters
  rw [hl] at h
  obtain ⟨_, rfl⟩ := Source.trackAll_eq ss h
  exact Marks.assignAll_nil _

theorem heeds_functions {fs : List Program.Function} : Heeds (functions cfg fs) fun c _ c' =>
    Unmarked c → Unmarked c' ∧
      ∀ f ∈ fs, ∃ M, trackAll f.body (.parameters f.params (.enter [])) = some M := by
  induction fs with
  | nil => exact .pure fun c unmarked => ⟨unmarked, by simp⟩
  | cons f rest ih =>
    refine .bind follows_function fun _ => ih.mono fun c₁ _ c' others c compiled out => ?_
    obtain ⟨unmarked, here⟩ := out.of_marked compiled fun M h => by
      obtain ⟨M₁, walked, h⟩ := bind_eq_some_iff.mp h
      exact (Option.some.inj h).symm.trans (tail_of_trackAll walked)
    obtain ⟨M₁, walked, -⟩ := bind_eq_some_iff.mp here
    obtain ⟨unmarked', others⟩ := others unmarked
    exact ⟨unmarked', forall_mem_cons.mpr ⟨⟨M₁, walked⟩, others⟩⟩

/-- A walk without the warning tracks the program to its end. -/
theorem heeds_program {p : Program} : Heeds (program cfg p) fun c _ _ =>
    Unmarked c → Source.Tracked p := by
  refine .bind rests_emit fun _ => .bind heeds_globals fun _ =>
    .bind heeds_functions fun _ => .bind follows_main fun _ =>
      rests_write.mono ?_
  intro c₄ _ _ _ c₃ compiled c₂ declared c₁ defined c steady unmarked
  have start : Unmarked c₁ := ⟨steady.noted unmarked.1, steady.marks.trans unmarked.2⟩
  obtain ⟨unmarked₂, globals⟩ := defined start
  obtain ⟨unmarked₃, functions⟩ := declared unmarked₂
  have main := (compiled unmarked₃.1).2
  rw [unmarked₃.2] at main
  obtain ⟨M, walked, -⟩ := bind_eq_some_iff.mp main
  exact ⟨globals, functions, M, walked⟩

variable (cfg) in
theorem tracked_of_finds {p : Program} {ds : List Diagnostic} {className : String}
    {o : Assembly.Options} (fresh : c.Fresh className o) (finds : Finds (program cfg p) c ds () c')
    (live : c'.polls ≠ some 0) (sound : ∀ d ∈ ds, d.severity.isError = false)
    (silent : ∀ d ∈ ds, d.code ≠ .semaUninitRead) : Source.Tracked p := by
  have run := finds.run (.collecting 0)
  have hushed : (c'.withReporter (Reporter.reportAll (.collecting 0) ds)).Hushed := by
    refine ⟨_, _, Reporter.reportAll_unique [] (Bag.new 0) ds, fun key known => ?_⟩
    obtain none | ⟨d, hd, rfl⟩ := mem_marked.mp known
    · cases none
    · exact silent d hd
  refine heeds_program.holds _ _ _ run ⟨finds.ok fresh.failed sound, live⟩ hushed
    ⟨fun v hv => ?_, ?_⟩
  · rw [withReporter, fresh.assigned] at hv
    cases hv
  · rw [marks, withReporter, fresh.stack]
    rfl

end Walk

end Compile

end Jasm
