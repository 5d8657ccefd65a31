import Mathlib.Data.List.Forall2
import Jasm.Proofs.Text.Separators
import Jasm.Trace.Tracer

/-!
# What a ring keeps

A ring keeps the last events of those that its level admits, as many as its capacity. A tracer over
a stream and a ring numbers each event before either of them sees it. So the events in the ring are
the last ones of those that the stream wrote, with the same numbers.
-/

namespace Jasm.Trace

open List Array

namespace Ring

/-- After a history of events, a ring has the last ones of them. -/
structure Keeps (r : Ring) (history : List Event) : Prop where
  inside : r.head < r.slots.size
  full : r.full = decide (r.slots.size ≤ history.length)
  /-- Before the first turn is over, the head counts the events. -/
  start : history.length < r.slots.size → r.head = history.length
  shown : r.snapshot = history.drop (history.length - r.slots.size)

variable {r : Ring} {history : List Event} (e : Event)

theorem size_new (capacity : Int) :
    (new capacity).slots.size = if capacity ≤ 0 then 4096 else capacity.toNat := by
  simp [new, standardCapacity]

theorem keeps_new {capacity : Int} : (new capacity).Keeps [] := by
  have room : 0 < (new capacity).slots.size := by
    rw [size_new]
    split <;> omega
  exact ⟨room, (decide_eq_false (Nat.not_le.mpr room)).symm, fun _ => rfl, by simp [new, snapshot]⟩

theorem size_push (r : Ring) : (r.push e).slots.size = r.slots.size := by simp [push]

/-- The slots before the head and behind it, which an event does not touch. -/
theorem Keeps.split (h : r.Keeps history) : ∃ before old behind,
    r.slots.toList = before ++ old :: behind ∧ before.length = r.head ∧
      (r.push e).slots.toList = before ++ e :: behind := by
  have lt : r.head < r.slots.toList.length := h.inside
  have split : r.slots.toList =
      r.slots.toList.take r.head ++ r.slots.toList[r.head] :: r.slots.toList.drop (r.head + 1) := by
    rw [getElem_cons_drop, take_append_drop]
  have length : (r.slots.toList.take r.head).length = r.head := length_take_of_le (Nat.le_of_lt lt)
  refine ⟨_, _, _, split, length, ?_⟩
  rw [push, toList_setIfInBounds, split, set_append_right _ _ (by rw [length]),
    length, Nat.sub_self]
  simp [set_cons_zero, length, drop_append]

theorem keeps_push_of_room (h : r.Keeps history) (room : history.length < r.slots.size) :
    (r.push e).Keeps (history ++ [e]) := by
  obtain ⟨before, old, behind, slots, length, written⟩ := h.split e
  have start := h.start room
  have open_ : r.full = false := by rw [h.full]; simpa using room
  have total : before.length + (behind.length + 1) = r.slots.size := by
    rw [← Array.length_toList, slots, length_append, length_cons]
  have first : before = history := by
    have shown := h.shown
    rw [Nat.sub_eq_zero_of_le (Nat.le_of_lt room)] at shown
    simpa [snapshot, open_, slots, ← length] using shown
  subst first
  cases behind with
  | nil =>
    -- the last slot was written
    have turn : (r.head + 1) % r.slots.size = 0 := by
      rw [← length, ← total]
      exact Nat.mod_self _
    have full : (r.push e).full = true := by simp [push, turn]
    have head : (r.push e).head = 0 := turn
    simp only [length_nil] at total
    refine ⟨by rw [head, size_push]; omega, ?_, fun short => ?_, ?_⟩
    · rw [full, size_push, length_append, length_singleton, ← total]
      simp
    · rw [size_push, length_append, length_singleton] at short
      omega
    · rw [snapshot, full, head, written, size_push, ← total]
      simp
  | cons next behind =>
    simp only [length_cons] at total
    have less : r.head + 1 < r.slots.size := by omega
    have head : (r.push e).head = r.head + 1 := Nat.mod_eq_of_lt less
    have full : (r.push e).full = false := by simp [push, open_, Nat.mod_eq_of_lt less]
    refine ⟨by rw [head, size_push]; exact less, ?_, fun _ => ?_, ?_⟩
    · rw [full, size_push, length_append, length_singleton]
      exact (decide_eq_false (by omega)).symm
    · rw [head, length_append, length_singleton, length]
    · rw [snapshot, full, head, written, size_push, length_append, length_singleton,
        Nat.sub_eq_zero_of_le (by omega), ← length]
      simp [take_append]

/-- A full ring loses its oldest event. -/
theorem keeps_push_of_full (h : r.Keeps history) (full : r.slots.size ≤ history.length) :
    (r.push e).Keeps (history ++ [e]) := by
  obtain ⟨before, old, behind, slots, length, written⟩ := h.split e
  have wrapped : r.full = true := by rw [h.full]; simpa using full
  have total : before.length + (behind.length + 1) = r.slots.size := by
    rw [← Array.length_toList, slots, length_append, length_cons]
  have tail : behind ++ before = history.drop (history.length - r.slots.size + 1) := by
    have kept := congrArg List.tail h.shown
    simpa [snapshot, wrapped, slots, ← length] using kept
  refine ⟨?_, ?_, fun short => ?_, ?_⟩
  · rw [size_push]
    exact Nat.mod_lt _ (by omega)
  · rw [size_push, length_append, length_singleton, decide_eq_true (by omega)]
    simp [push, wrapped]
  · rw [size_push, length_append, length_singleton] at short
    omega
  · have still : (r.push e).full = true := by simp [push, wrapped]
    rw [size_push, length_append, length_singleton, Nat.sub_add_comm full,
      drop_append_of_le_length (by omega), ← tail, snapshot, still, written]
    cases behind with
    | nil =>
      have head : (r.push e).head = 0 := by
        show (r.head + 1) % r.slots.size = 0
        rw [← length, ← total]
        exact Nat.mod_self _
      simp [head]
    | cons next behind =>
      simp only [length_cons] at total
      have head : (r.push e).head = before.length + 1 := by
        rw [length]
        exact Nat.mod_eq_of_lt (by omega)
      simp [head, take_append, drop_append, take_of_length_le]

/-- What one event does to a ring. -/
theorem Keeps.push (h : r.Keeps history) : (r.push e).Keeps (history ++ [e]) := by
  rcases Nat.lt_or_ge history.length r.slots.size with room | full
  · exact keeps_push_of_room e h room
  · exact keeps_push_of_full e h full

/-- What events one after another do to a ring. -/
theorem Keeps.pushAll (h : r.Keeps history) (es : List Event) :
    (es.foldl Ring.push r).Keeps (history ++ es) ∧
      (es.foldl Ring.push r).slots.size = r.slots.size := by
  induction es generalizing r history with
  | nil => exact ⟨by simpa using h, rfl⟩
  | cons e rest ih => simpa [size_push] using ih (h.push e)

end Ring

/-! ## Tracers -/

def numbered : (last : Nat) → List Event → List Event
  | _, [] => []
  | last, e :: rest => (e.number last).1 :: numbered (e.number last).2 rest

theorem takes_number (l : Level) (e : Event) (last : Nat) : l.takes (e.number last).1 =
    l.takes e := by
  unfold Event.number
  split <;> rfl

theorem seq_number (e : Event) (last : Nat) : (e.number last).1.seq ≠ 0 := by
  unfold Event.number
  split
  · exact Nat.succ_ne_zero _
  · assumption

/-- What a sink has after events that have their numbers. -/
def Sink.after (es : List Event) (s : Sink) : Sink := es.foldl (fun s e => s.accept e) s

namespace Sink

variable (es : List Event)

theorem level_accept (e : Event) (s : Sink) : (s.accept e).level = s.level := by cases s <;> rfl

theorem after_ring (level : Level) (ring : Ring) :
    after es (.ring level ring) = .ring level (es.foldl Ring.push ring) := by
  induction es generalizing ring with
  | nil => rfl
  | cons e rest ih => exact ih (ring.push e)

theorem after_stream (stream : Stream) :
    after es (.stream stream) = .stream { stream with
      written := stream.written ++
        String.join (es.map (·.text stream.format (some stream.opened))) } := by
  induction es generalizing stream with
  | nil => simp [after]
  | cons e rest ih =>
    refine (ih { stream with
      written := stream.written ++ e.text stream.format (some stream.opened) }).trans ?_
    simp [String.append_assoc]

end Sink

theorem Tracer.emitAll_eq {e : Event} (given : e.seq ≠ 0) (last : Nat) (ss : List Sink) :
    emitAll e last ss = (ss.map fun s => s.after ([e].filter s.level.takes), last) := by
  induction ss with
  | nil => rfl
  | cons s rest ih =>
    cases takes : s.level.takes e <;>
      simp [emitAll, Sink.emit, Event.number, Sink.after, takes, given, ih]

namespace Recorder

variable {r : Recorder} (es : List Event)

/-- A single sink numbers what it takes. -/
theorem tracer_emit_single {s : Sink} (tracer : r.tracer = .single s) :
    (es.foldl emit r).tracer =
      .single (s.after (numbered r.lastSeq (es.filter s.level.takes))) := by
  induction es generalizing r s with
  | nil => exact tracer
  | cons e rest ih =>
    cases takes : s.level.takes e with
    | true =>
      have step : r.emit e =
          { r with tracer := .single (s.accept (e.number r.lastSeq).1),
                   lastSeq := (e.number r.lastSeq).2 } := by
        simp [emit, tracer, Tracer.emit, Sink.emit, takes]
      rw [foldl_cons, step, ih rfl, Sink.level_accept, filter_cons_of_pos takes]
      rfl
    | false =>
      have step : r.emit e = r := by
        simp only [emit, tracer, Tracer.emit, Sink.emit, takes, Bool.false_eq_true, if_false]
        rw [← tracer]
      rw [foldl_cons, step, ih tracer, filter_cons_of_neg (by simp [takes])]

/-- Sinks that share a tracer take of the same numbered events. -/
theorem tracer_emit_shared {level : Level} {ss : List Sink} (tracer : r.tracer = .shared level ss) :
    (es.foldl emit r).tracer = .shared level
      (ss.map fun s => s.after ((numbered r.lastSeq es).filter s.level.takes)) := by
  induction es generalizing r ss with
  | nil => simpa [numbered, Sink.after] using tracer
  | cons e rest ih =>
    have step : r.emit e =
        { r with tracer := .shared level (ss.map fun s =>
                   s.after ([(e.number r.lastSeq).1].filter s.level.takes)),
                 lastSeq := (e.number r.lastSeq).2 } := by
      simp [emit, tracer, Tracer.emit, Tracer.emitAll_eq (seq_number e _)]
    rw [foldl_cons, step, ih rfl, List.map_map]
    congr 2
    funext s
    cases takes : s.level.takes e <;>
      simp [numbered, Sink.after, takes_number, takes, Sink.level_accept]

end Recorder

/-! ## Lines -/

/-- A line that tells of an event: as JSON it is one line that shows the time and the number of the
event first, and as text it shows its mark and its name. -/
def Event.Shown (format : Format) (e : Event) (line : String) : Prop :=
  if format = .ndjson then
    '\n' ∉ line.toList ∧ ∃ rest, line = "\x7b\"time\":" ++ Json.quoted (timeText e.time) ++
      ",\"seq\":" ++ toString (e.seq : Int) ++ ",\"kind\":" ++ rest
  else ∃ front rest, line = front ++ e.kind.mark ++ e.name ++ rest

theorem notMem_quoted (s : String) : '\n' ∉ (Json.quoted s).toList := by
  have digits (width n : Nat) : '\n' ∉ Text.hexDigits width n := by
    induction width generalizing n with
    | zero => simp [Text.hexDigits]
    | succ width ih =>
      have last : ∀ d < 16, '\n' ≠ Text.hexChar d := by decide
      simpa [Text.hexDigits, ih] using last _ (Nat.mod_lt n (by decide))
  have escaped (c : Char) : '\n' ∉ Json.escapeChar c := by
    unfold Json.escapeChar
    split
    case h_8 =>
      split
      · simp [digits]
      · next plain =>
        rintro (_ | ⟨_, ⟨⟩⟩)
        exact plain (by decide)
    all_goals decide
  simp [Json.quoted, escaped]

theorem notMem_obj {fields : List (String × Json)} (h : ∀ f ∈ fields, '\n' ∉ f.2.compact.toList) :
    '\n' ∉ (Json.obj fields).compact.toList := by
  have inside : '\n' ∉ (",".intercalate (Json.compactFields fields)).toList := by
    induction fields with
    | nil => simp [Json.compactFields]
    | cons f rest ih =>
      rw [forall_mem_cons] at h
      have first : '\n' ∉ (Json.quoted f.1 ++ ":" ++ f.2.compact).toList := by
        simp [notMem_quoted, h.1]
      rw [Json.compactFields]
      by_cases last : Json.compactFields rest = []
      · simpa [last] using first
      · rw [String.intercalate_cons_of_ne_nil last, String.toList_append, String.toList_append,
          List.mem_append, List.mem_append, not_or, not_or]
        exact ⟨⟨first, by decide⟩, ih h.2⟩
  simpa [Json.compact] using inside

theorem notMem_toJson (e : Event) : '\n' ∉ e.toJson.compact.toList := by
  have str (s : String) : '\n' ∉ (Json.str s).compact.toList := by
    rw [Json.compact]
    exact notMem_quoted s
  have int (n : Int) : '\n' ∉ (Json.int n).compact.toList := by
    rw [Json.compact]
    exact Text.notMem_int rfl (by decide)
  have number (name : String) (n : Nat) :
      ∀ f ∈ Event.optionalNumber name n, '\n' ∉ f.2.compact.toList := by
    unfold Event.optionalNumber
    split <;> simp [int]
  have optional (name s : String) : ∀ f ∈ Json.optional name s, '\n' ∉ f.2.compact.toList := by
    unfold Json.optional
    split <;> simp [Json.text, str]
  refine notMem_obj ?_
  simp only [List.forall_mem_append]
  refine ⟨⟨⟨⟨⟨by simp [str, int], number _ _⟩, number _ _⟩, by simp [str]⟩, optional _ _⟩, ?_⟩
  split
  · simp
  · rw [List.forall_mem_singleton]
    exact notMem_obj (List.forall_mem_map.mpr fun f _ => str f.2)

/-- What a sink writes of an event tells of it. -/
theorem text_shown (format : Format) (since : Option Int) (e : Event) :
    ∃ line, e.text format since = line ++ "\n" ∧ e.Shown format line := by
  unfold Event.Shown
  split
  · next json =>
    subst json
    refine ⟨_, rfl, notMem_toJson e, ?_⟩
    obtain ⟨more, ne, fields⟩ : ∃ more, Json.compactFields more ≠ [] ∧ e.toJson =
        .obj (("time", .str (timeText e.time)) :: ("seq", .int e.seq) ::
          ("kind", .str e.kind.text) :: more) := ⟨_, by simp [Json.compactFields], rfl⟩
    have names : Json.quoted "time" = "\"time\"" ∧ Json.quoted "seq" = "\"seq\"" ∧
      Json.quoted "kind" = "\"kind\"" := by decide
    obtain ⟨time, seq, kind⟩ := names
    refine ⟨Json.quoted e.kind.text ++ "," ++ ",".intercalate (Json.compactFields more)
      ++ "\x7d", ?_⟩
    simp only [fields, Json.compact, Json.compactFields, time, seq, kind]
    rw [String.intercalate_cons_of_ne_nil (by simp), String.intercalate_cons_of_ne_nil (by simp),
      String.intercalate_cons_of_ne_nil ne]
    apply String.toList_inj.mp
    simp
  · next other =>
    have text : e.text format since = e.lineText since := by
      unfold Event.text
      split
      · exact absurd rfl other
      · rfl
    rw [text, Event.lineText]
    exact ⟨_, rfl, _, _, String.append_assoc⟩

/-- The last events of a list, as many as a number says or all of them. -/
def latest (n : Nat) (events : List Event) : List Event := events.drop (events.length - n)

/-- What a sink gains by events that it takes: a ring shows the last of all it was given, and a
stream has a line for each of them behind what was written before. -/
def Sink.Gains (es : List Event) : Sink → Sink → Prop
  | .ring level r, s => ∃ r', s = .ring level r' ∧
      ∀ history, r.Keeps history → r'.snapshot = latest r.slots.size (history ++ es)
  | .stream st, s => ∃ lines, List.Forall₂ (Event.Shown st.format) es lines ∧
      s = .stream { st with written := st.written ++ String.join (lines.map (· ++ "\n")) }

theorem Sink.gains_after (es : List Event) (s : Sink) : s.Gains es (s.after es) := by
  cases s with
  | ring level r =>
    rw [after_ring]
    refine ⟨_, rfl, fun history keeps => ?_⟩
    obtain ⟨kept, size⟩ := keeps.pushAll es
    rw [kept.shown, size]
    rfl
  | stream st =>
    choose line text shown using text_shown st.format (some st.opened)
    refine ⟨es.map line, ?_, ?_⟩
    · rw [forall₂_map_right_iff, forall₂_same]
      exact fun e _ => shown e
    · rw [after_stream, List.map_map]
      simp only [text, Function.comp_def]

/-- A ring of any capacity there is memory for, or of the standard one in place of one that is not
positive, shows the last of the events that its level admits. Together with a stream, it shows the
last of the events that the stream wrote, each on a line of its own with its number. -/
theorem ring_shows_latest (r : Recorder) (es : List Event) :
    (∀ level, ∀ capacity ≤ (Ring.maxCapacity : Int), ∃ ring : Ring,
      (es.foldl Recorder.emit { r with tracer := .single (.ring level (.new capacity)) }).tracer =
        .single (.ring level ring) ∧
      ring.snapshot = latest (if capacity ≤ 0 then 4096 else capacity.toNat)
        (numbered r.lastSeq (es.filter level.takes))) ∧
    ∀ (c : Config) target now, c.storage = .both → c.level ≠ .off → c.ringSize ≤ Ring.maxCapacity →
      ∃ tracer stream ring lines, c.tracer target now = .ok tracer ∧
        (es.foldl Recorder.emit { r with tracer := tracer }).tracer =
          .shared c.level [.stream stream, .ring c.level ring] ∧
        let events := (numbered r.lastSeq es).filter c.level.takes
        stream.written = String.join (lines.map (· ++ "\n")) ∧
        List.Forall₂ (Event.Shown c.effectiveFormat) events lines ∧
        ring.snapshot = latest (if c.ringSize ≤ 0 then 4096 else c.ringSize.toNat) events := by
  refine ⟨fun level capacity _ => ?_, fun c target now both on _ => ?_⟩
  · obtain ⟨ring, eq, shown⟩ := Sink.gains_after (numbered r.lastSeq (es.filter level.takes))
      (.ring level (.new capacity))
    refine ⟨ring, ?_, Ring.size_new capacity ▸ shown [] Ring.keeps_new⟩
    rw [Recorder.tracer_emit_single es rfl]
    exact congrArg Tracer.single eq
  · let stream : Stream := ⟨c.level, c.effectiveFormat, target, now, "", 0, 0, ""⟩
    have made : c.tracer target now =
        .ok (.shared c.level [.stream stream, .ring c.level (.new c.ringSize)]) := by
      rw [Config.tracer, if_neg on, both]
    have emitted := Recorder.tracer_emit_shared es
      (r := { r with tracer := .shared c.level [.stream stream, .ring c.level (.new c.ringSize)] })
      rfl
    let events := (numbered r.lastSeq es).filter c.level.takes
    obtain ⟨lines, shown, written⟩ := Sink.gains_after events (.stream stream)
    obtain ⟨ring, eq, kept⟩ := Sink.gains_after events (.ring c.level (.new c.ringSize))
    rw [List.map_cons, List.map_singleton] at emitted
    refine ⟨_, { stream with written := "" ++ _ }, ring, lines, made, ?_,
      String.empty_append, shown,
      Ring.size_new c.ringSize ▸ kept [] Ring.keeps_new⟩
    rw [emitted]
    exact congrArg₂ (fun a b => Tracer.shared c.level [a, b]) written eq

/-- Three events, of which the second one is a sign of life and the last one is not admitted. -/
theorem ring_shows_latest_heartbeat :
    let c : Config := { level := .phase, storage := .both, ringSize := 1 }
    let es : List Event :=
      [{ grain := .driver }, { kind := .heartbeat, grain := .stmt }, { grain := .stmt }]
    ∃ tracer stream ring lines, c.tracer .errorOutput 7 = .ok tracer ∧
      (es.foldl Recorder.emit { tracer := tracer }).tracer =
        .shared .phase [.stream stream, .ring .phase ring] ∧
      List.Forall₂ (Event.Shown .text)
        [{ seq := 1, grain := .driver }, { seq := 2, kind := .heartbeat, grain := .stmt }] lines ∧
      ring.snapshot = [{ seq := 2, kind := .heartbeat, grain := .stmt }] := by
  intro c es
  obtain ⟨tracer, stream, ring, lines, made, emitted, -, told, shown⟩ :=
    (ring_shows_latest {} es).2 c .errorOutput 7 rfl (by decide) (by decide)
  exact ⟨tracer, stream, ring, lines, made, emitted, told, shown⟩

end Jasm.Trace
