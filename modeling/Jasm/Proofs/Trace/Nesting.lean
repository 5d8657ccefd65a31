import Jasm.Proofs.Trace.Keeping

/-!
# How spans nest

Work is a forest of spans and points. A span that the level of a tracer does not admit is not
recorded, and what happens inside it belongs to the span around it. So a trace is the one of the
whole work, with the spans that are not admitted contracted.
-/

namespace Jasm.Trace

open List

/-- Spans and points one after another: each is followed by the rest of what is around it. -/
inductive Work where
  | done
  | point (grain : Grain) (name detail : String) (rest : Work)
  | span (grain : Grain) (name detail : String) (inner rest : Work)

namespace Event

def opening (now : Int) (grain : Grain) (name : String) (own parent : Nat) : Event :=
  { time := now, kind := .start, grain := grain, span := own, parent := parent, name := name }

def closing (now : Int) (grain : Grain) (name detail : String) (own parent : Nat) : Event :=
  { opening now grain name own parent with kind := .finish, detail := detail }

/-- What an event tells apart from its time and the numbers of spans. -/
def label (e : Event) : EventKind × Grain × String × String := (e.kind, e.grain, e.name, e.detail)

end Event

namespace Work

/-- Does work inside a span. -/
def record (parent : Nat) : Work → Recorder → Recorder
  | .done, r => r
  | .point grain name detail rest, r => rest.record parent (r.point grain name detail parent)
  | .span grain name detail inner rest, r =>
    let (s, r) := r.start grain name parent
    rest.record parent ((inner.record s.id r).finish s detail)

def append : Work → Work → Work
  | .done, w => w
  | .point grain name detail rest, w => .point grain name detail (rest.append w)
  | .span grain name detail inner rest, w => .span grain name detail inner (rest.append w)

/-- Leaves out what a level does not admit, but not what is inside of it. -/
def contract (level : Level) : Work → Work
  | .done => .done
  | .point grain name detail rest =>
    if level.admits grain then .point grain name detail (rest.contract level)
    else rest.contract level
  | .span grain name detail inner rest =>
    if level.admits grain then
      .span grain name detail (inner.contract level) (rest.contract level)
    else (inner.contract level).append (rest.contract level)

def spans : Work → Nat
  | .done => 0
  | .point _ _ _ rest => rest.spans
  | .span _ _ _ inner rest => 1 + inner.spans + rest.spans

/-- The events of the whole work; `last` is the last number given to a span. -/
def events (now : Int) : (parent last : Nat) → Work → List Event
  | _, _, .done => []
  | parent, last, .point grain name detail rest =>
    { time := now, kind := .point, grain := grain, parent := parent, name := name,
      detail := detail } :: rest.events now parent last
  | parent, last, .span grain name detail inner rest =>
    .opening now grain name (last + 1) parent :: inner.events now (last + 1) (last + 1) ++
      .closing now grain name detail (last + 1) parent ::
        rest.events now parent (last + 1 + inner.spans)

end Work

/-- The spans around each event are those that were started and are not finished. An event belongs
to the innermost of them, and it is also the first one to be finished. -/
def Nested : (around : List Nat) → List Event → Prop
  | around, [] => around.length = 1
  | [], _ :: _ => False
  | parent :: around, e :: rest =>
    match e.kind with
    | .start => e.parent = parent ∧ Nested (e.span :: parent :: around) rest
    | .finish => e.span = parent ∧ around.head? = some e.parent ∧ Nested around rest
    | _ => e.parent = parent ∧ Nested (parent :: around) rest

def started (es : List Event) : List Nat := (es.filter (·.kind = .start)).map (·.span)

/-! ## The events of the whole work -/

namespace Work

variable (now : Int) (parent last : Nat) (w : Work)

theorem started_events : started (w.events now parent last) = List.range' (last + 1) w.spans := by
  induction w generalizing parent last with
  | done => rfl
  | point grain name detail rest ih => simpa [events, started, spans] using ih parent last
  | span grain name detail inner rest ihi ihr =>
    have hi := ihi (last + 1) (last + 1)
    have hr := ihr parent (last + 1 + inner.spans)
    simp only [started] at hi hr
    rw [spans, Nat.add_assoc, Nat.add_comm 1, range'_succ, ← range'_append_1]
    simp [events, started, Event.opening, Event.closing, hi, hr, Nat.add_right_comm]

theorem nested_events {around : List Nat} {es : List Event} (h : Nested (parent :: around) es) :
    Nested (parent :: around) (w.events now parent last ++ es) := by
  induction w generalizing parent last around es with
  | done => exact h
  | point grain name detail rest ih => exact ⟨rfl, ih parent last h⟩
  | span grain name detail inner rest ihi ihr =>
    rw [events, append_assoc]
    exact ⟨rfl, ihi _ _ ⟨rfl, rfl, ihr parent _ h⟩⟩

end Work

/-! ## Contraction -/

namespace Work

variable (v w : Work)

theorem spans_append : (v.append w).spans = v.spans + w.spans := by
  induction v with
  | done => exact (Nat.zero_add _).symm
  | point grain name detail rest ih => exact ih
  | span grain name detail inner rest _ ih => simp [append, spans, ih, Nat.add_assoc]

theorem events_append (now : Int) (parent last : Nat) : (v.append w).events now parent last =
    v.events now parent last ++ w.events now parent (last + v.spans) := by
  induction v generalizing last with
  | done => rfl
  | point grain name detail rest ih => simp [append, events, spans, ih]
  | span grain name detail inner rest _ ih => simp [append, events, spans, ih, Nat.add_assoc]

theorem label_contract (level : Level) (now : Int) (parent parent' last last' : Nat) :
    ((w.contract level).events now parent last).map Event.label =
      ((w.events now parent' last').filter (level.admits ·.grain)).map Event.label := by
  induction w generalizing parent parent' last last' with
  | done => rfl
  | point grain name detail rest ih =>
    cases admitted : level.admits grain <;>
      simp [contract, events, admitted, Event.label, ih parent parent' last last']
  | span grain name detail inner rest ihi ihr =>
    cases admitted : level.admits grain with
    | true =>
      simp [contract, events, admitted, Event.label, Event.opening, Event.closing,
        ihi (last + 1) (last' + 1) _ (last' + 1), ihr parent parent' _ (last' + 1 + inner.spans)]
    | false =>
      simp [contract, events, events_append, admitted, Event.opening, Event.closing,
        ihi parent (last' + 1) _ (last' + 1), ihr parent parent' _ (last' + 1 + inner.spans)]

theorem contract_debug : w.contract .debug = w := by
  induction w with
  | done => rfl
  | point grain name detail rest ih => exact congrArg (point grain name detail) ih
  | span grain name detail inner rest ihi ihr =>
    exact congrArg₂ (span grain name detail) ihi ihr

end Work

/-! ## Recording -/

namespace Recorder

variable (r : Recorder)

theorem records_eq (grain : Grain) : r.records grain = r.tracer.level.admits grain := by
  unfold records Tracer.isEnabled
  cases r.tracer.level <;> rfl

theorem level_emit (e : Event) : (r.emit e).tracer.level = r.tracer.level := by
  unfold emit
  cases r.tracer with
  | off => rfl
  | shared level ss => rfl
  | single s =>
    cases takes : s.level.takes e <;>
      simp [Tracer.emit, Sink.emit, takes, Tracer.level, Sink.level_accept]

def after (es : List Event) (spans : Nat) : Recorder :=
  { es.foldl emit r with lastSpan := r.lastSpan + spans }

variable (es : List Event) (n : Nat)

theorem level_after : (r.after es n).tracer.level = r.tracer.level :=
  List.foldlRecOn es emit (motive := fun r' => r'.tracer.level = r.tracer.level) rfl
    fun r' h e _ => (level_emit r' e).trans h

theorem now_after : (r.after es n).now = r.now :=
  List.foldlRecOn es emit (motive := fun r' : Recorder => r'.now = r.now) rfl fun _ h _ _ => h

theorem lastSpan_after : (r.after es n).lastSpan = r.lastSpan + n := rfl

theorem foldl_emit_lastSpan :
    es.foldl emit { r with lastSpan := n } = { es.foldl emit r with lastSpan := n } := by
  induction es generalizing r with
  | nil => rfl
  | cons e rest ih => exact ih (r.emit e)

theorem after_after (es' : List Event) (n' : Nat) :
    (r.after es n).after es' n' = r.after (es ++ es') (n + n') := by
  simp only [after, foldl_emit_lastSpan, foldl_append, Nat.add_assoc]

/-- The sinks of a tracer have its level. -/
def Uniform : Prop := ∀ s ∈ r.tracer.sinks, s.level = r.tracer.level

/-- All sinks gained the same events on the way to another recorder, numbered one after another. -/
def Takes (es : List Event) (r' : Recorder) : Prop :=
  Forall₂ (Sink.Gains (numbered r.lastSeq es)) r.tracer.sinks r'.tracer.sinks

end Recorder

theorem numbered_takes {level : Level} {es : List Event} (h : ∀ e ∈ es, level.takes e)
    (last : Nat) :
    ∀ e ∈ numbered last es, level.takes e := by
  induction es generalizing last with
  | nil => exact h
  | cons e rest ih =>
    rw [forall_mem_cons] at h
    rw [numbered, forall_mem_cons, takes_number]
    exact ⟨h.1, ih h.2 _⟩

namespace Recorder

variable {r : Recorder}

theorem takes_foldl_emit (uniform : r.Uniform) {es : List Event}
    (admitted : ∀ e ∈ es, r.tracer.level.admits e.grain) : r.Takes es (es.foldl emit r) := by
  have taken : ∀ e ∈ es, r.tracer.level.takes e := fun e he => by
    rw [Level.takes, admitted e he, Bool.true_or]
  suffices same : (es.foldl emit r).tracer.sinks =
      r.tracer.sinks.map (·.after (numbered r.lastSeq es)) by
    rw [Takes, same, forall₂_map_right_iff, forall₂_same]
    exact fun s _ => s.gains_after _
  unfold Uniform at uniform
  cases tracer : r.tracer with
  | off =>
    cases es with
    | nil => rw [foldl_nil, tracer]; rfl
    | cons e rest =>
      rw [tracer] at admitted
      cases admitted e mem_cons_self
  | single s =>
    rw [tracer] at taken
    rw [tracer_emit_single es tracer]
    exact congrArg (fun es => [s.after (numbered r.lastSeq es)]) (filter_eq_self.mpr taken)
  | shared level ss =>
    rw [tracer] at taken uniform
    rw [tracer_emit_shared es tracer]
    refine map_congr_left fun s hs => ?_
    rw [uniform s hs, filter_eq_self.mpr (numbered_takes taken _)]

end Recorder

namespace Work

open Recorder

theorem record_eq (w : Work) (parent : Nat) (r : Recorder) :
    w.record parent r =
      r.after ((w.contract r.tracer.level).events r.now parent r.lastSpan)
        (w.contract r.tracer.level).spans := by
  induction w generalizing parent r with
  | done => rfl
  | point grain name detail rest ih =>
    rw [record, Recorder.point, records_eq, contract]
    split
    · rw [ih, level_emit]
      rfl
    · exact ih parent r
  | span grain name detail inner rest ihi ihr =>
    rw [record, start, records_eq, contract]
    cases r.tracer.level.admits grain with
    | true =>
      let own := r.lastSpan + 1
      let inside := inner.record own (r.after [.opening r.now grain name own parent] 1)
      change rest.record parent
        (inside.after [.closing inside.now grain name detail own parent] 0) = _
      simp [inside, own, ihi, ihr, after_after, level_after, now_after, lastSpan_after,
        events, spans,
        Nat.add_assoc]
    | false =>
      change rest.record parent (inner.record parent r) = _
      simp [ihi, ihr, after_after, level_after, now_after, lastSpan_after,
        events_append, spans_append]

theorem admits_events {level : Level} {w : Work} {now : Int} {parent last : Nat} {e : Event}
    (he : e ∈ (w.contract level).events now parent last) : level.admits e.grain := by
  have told := mem_map_of_mem (f := Event.label) he
  rw [label_contract w level now parent parent last last] at told
  obtain ⟨e', he', same⟩ := mem_map.mp told
  have grain : e'.grain = e.grain := congrArg (fun label => label.2.1) same
  exact grain ▸ (mem_filter.mp he').2

theorem takes_record (w : Work) (parent : Nat) {r : Recorder} (uniform : r.Uniform) :
    r.Takes ((w.contract r.tracer.level).events r.now parent r.lastSpan) (w.record parent r) := by
  rw [record_eq]
  exact takes_foldl_emit uniform fun _ => admits_events

end Work

/-- Work is recorded in every ring and every stream as far as the level of the tracer admits it, and
otherwise in the same way as at the finest level. Each span is started and finished once under a
number of its own. An event belongs to the nearest span around it that is recorded, as it does at
the finest level in the work with all other spans contracted. -/
theorem record_contracts (w : Work) (parent : Nat) (r : Recorder) (uniform : r.Uniform) :
    ∃ es, r.Takes es (w.record parent r) ∧ Nested [parent] es ∧
      (started es).Nodup ∧ 0 ∉ started es ∧
      let whole := w.events r.now parent r.lastSpan
      es.map Event.label = (whole.filter (r.tracer.level.admits ·.grain)).map Event.label ∧
      ∀ finest : Recorder, finest.Uniform → finest.tracer.level = .debug → finest.now = r.now →
        finest.lastSpan = r.lastSpan →
        finest.Takes whole (w.record parent finest) ∧
        finest.Takes es ((w.contract r.tracer.level).record parent finest) := by
  refine ⟨_, w.takes_record parent uniform, ?_, ?_, ?_, w.label_contract _ _ _ _ _ _,
    fun finest same debug now last => ?_⟩
  · have nested := fun w : Work => w.nested_events r.now parent r.lastSpan
      (show Nested [parent] [] from rfl)
    simpa using nested (w.contract r.tracer.level)
  · rw [Work.started_events]
    exact List.nodup_range'
  · simp [Work.started_events]
  · have taken := fun w : Work => w.takes_record parent same
    simp only [debug, now, last, Work.contract_debug] at taken
    exact ⟨taken w, taken (w.contract r.tracer.level)⟩

/-- A step inside a statement, which is not recorded, inside a run. -/
theorem record_contracts_phase :
    let w : Work :=
      .span .driver "run" "" (.span .stmt "let" "" (.span .unit "step" "" .done .done) .done) .done
    let r : Recorder := { tracer := .single (.ring .phase (.new 8)) }
    ∃ es ring, (w.record 0 r).tracer.sinks = [.ring .phase ring] ∧
      ring.snapshot = latest 8 (numbered 0 es) ∧ Nested [0] es ∧
      es.map Event.label = [(.start, .driver, "run", ""), (.start, .unit, "step", ""),
        (.finish, .unit, "step", ""), (.finish, .driver, "run", "")] := by
  intro w r
  obtain ⟨es, taken, nested, -, -, labels, -⟩ :=
    record_contracts w 0 r (List.forall_mem_singleton.mpr rfl)
  obtain ⟨_, _, ⟨ring, rfl, shown⟩, none, sinks⟩ := forall₂_cons_left_iff.mp taken
  rw [forall₂_nil_left_iff.mp none] at sinks
  exact ⟨es, ring, sinks, shown [] Ring.keeps_new, nested, labels⟩

end Jasm.Trace
