import Jasm.Trace.Ring

/-!
# Tracers

A tracer hands events to sinks: rings in memory and streams of text. A sink takes an event if its
level admits the grain of the event; signs of life are always taken. Events are numbered when they
are first taken. A tracer over several sinks numbers an event before any sink sees it, so that all
of them agree on the number.

A span that is not recorded stands for the span around it: what happens inside it belongs to the
nearest recorded span.
-/

namespace Jasm.Trace

/-- Where a stream writes to. -/
inductive Target where
  /-- The error output of the process, which stays open. -/
  | errorOutput
  | file (path : String)
  /-- A buffered output that may fail to be flushed. -/
  | buffered (flushFault : Option String)

structure Stream where
  level : Level
  format : Format
  target : Target
  /-- When the stream was opened. -/
  opened : Int
  /-- What was written. -/
  written : String := ""
  flushes : Nat := 0
  closes : Nat := 0
  /-- What its file held when it was last brought up to date. -/
  saved : String := ""

inductive Sink where
  | ring (level : Level) (ring : Ring)
  | stream (stream : Stream)

/-- Whether a sink of a level takes an event. -/
def Level.takes (l : Level) (e : Event) : Bool := l.admits e.grain || e.kind = .heartbeat

/-- Gives an event a number unless it has one; `last` is the last number given. -/
def Event.number (last : Nat) (e : Event) : Event × Nat :=
  if e.seq = 0 then ({ e with seq := last + 1 }, last + 1) else (e, last)

namespace Sink

def level : Sink → Level
  | .ring l _ => l
  | .stream s => s.level

/-- Keeps or writes an event that has its number. -/
def accept (e : Event) : Sink → Sink
  | .ring l r => .ring l (r.push e)
  | .stream s => .stream { s with written := s.written ++ e.text s.format (some s.opened) }

/-- Hands an event to a sink; `last` is the last number given. -/
def emit (last : Nat) (e : Event) (s : Sink) : Sink × Nat :=
  if s.level.takes e then
    let (e, last) := e.number last
    (s.accept e, last)
  else (s, last)

/-- Forces out what is buffered. -/
def flush : Sink → Option String × Sink
  | .ring l r => (none, .ring l r)
  | .stream s =>
    match s.target with
    | .buffered fault => (fault, .stream { s with flushes := s.flushes + 1 })
    | _ => (none, .stream s)

/-- Flushes and closes a sink. One that cannot be flushed stays open, and so does the error
output. -/
def close (s : Sink) : Option String × Sink :=
  match s.flush with
  | (none, .stream s) =>
    match s.target with
    | .errorOutput => (none, .stream s)
    | _ => (none, .stream { s with closes := s.closes + 1 })
  | other => other

end Sink

inductive Tracer where
  | off
  | single (sink : Sink)
  | shared (level : Level) (sinks : List Sink)

namespace Tracer

def level : Tracer → Level
  | .off => .off
  | .single s => s.level
  | .shared l _ => l

def sinks : Tracer → List Sink
  | .off => []
  | .single s => [s]
  | .shared _ ss => ss

def isEnabled (t : Tracer) : Bool := t.level.isEnabled

/-- Hands an event to the sinks one after another. -/
def emitAll (e : Event) : (last : Nat) → List Sink → List Sink × Nat
  | last, [] => ([], last)
  | last, s :: rest =>
    let (s, last) := s.emit last e
    let (rest, last) := emitAll e last rest
    (s :: rest, last)

def emit (t : Tracer) (last : Nat) (e : Event) : Tracer × Nat :=
  match t with
  | .off => (.off, last)
  | .single s =>
    let (s, last) := s.emit last e
    (.single s, last)
  | .shared l ss =>
    let (e, last) := e.number last
    let (ss, last) := emitAll e last ss
    (.shared l ss, last)

def withSinks (t : Tracer) (ss : List Sink) : Tracer :=
  match t, ss with
  | .shared l _, ss => .shared l ss
  | .single _, [s] => .single s
  | t, _ => t

/-- The faults of several sinks, one on each line. -/
def joinFaults (faults : List String) : Option String :=
  if faults.isEmpty then none else some ("\n".intercalate faults)

def flush (t : Tracer) : Option String × Tracer :=
  let done := t.sinks.map Sink.flush
  (joinFaults (done.filterMap (·.1)), t.withSinks (done.map (·.2)))

def close (t : Tracer) : Option String × Tracer :=
  let done := t.sinks.map Sink.close
  (joinFaults (done.filterMap (·.1)), t.withSinks (done.map (·.2)))

def rings (t : Tracer) : List Ring :=
  t.sinks.filterMap fun
    | .ring _ r => some r
    | .stream _ => none

def streams (t : Tracer) : List Stream :=
  t.sinks.filterMap fun
    | .ring .. => none
    | .stream s => some s

end Tracer

/-- What a tracer is made from. -/
structure Config where
  level : Level := .off
  /-- Without a choice events are streamed. -/
  storage : Storage := .other 0
  format : Format := .auto
  path : String := ""
  ringSize : Int := 0

/-- The format that is meant; a file may ask for JSON by its name. -/
def Config.effectiveFormat (c : Config) : Format :=
  match c.format with
  | .auto =>
    if c.path.endsWith ".ndjson" || c.path.endsWith ".jsonl" then .ndjson else .text
  | f => f

/-- Makes a tracer; `target` is where its stream would write to. -/
def Config.tracer (c : Config) (target : Target) (now : Int) : Except String Tracer :=
  let stream := Sink.stream ⟨c.level, c.effectiveFormat, target, now, "", 0, 0, ""⟩
  let ring := Sink.ring c.level (.new c.ringSize)
  if c.level = .off then .ok .off
  else match c.storage with
    | .stream | .other 0 => .ok (.single stream)
    | .ring => .ok (.single ring)
    | .both => .ok (.shared c.level [stream, ring])
    | .other n => .error s!"unknown storage mode: {(Storage.other n).text}"

/-! ## Recording -/

/-- A tracer at work, with the numbers it has given out. -/
structure Recorder where
  tracer : Tracer := .off
  lastSeq : Nat := 0
  lastSpan : Nat := 0
  now : Int := 0

/-- A span. One that is not recorded has no number of its own. -/
structure Span where
  own : Nat := 0
  parent : Nat := 0
  grain : Grain := .other 0
  name : String := ""
  extra : List (String × String) := []

/-- The number that events inside the span belong to. -/
def Span.id (s : Span) : Nat := if s.own = 0 then s.parent else s.own

namespace Recorder

def emit (r : Recorder) (e : Event) : Recorder :=
  let (tracer, last) := r.tracer.emit r.lastSeq e
  { r with tracer := tracer, lastSeq := last }

def records (r : Recorder) (g : Grain) : Bool := r.tracer.isEnabled && r.tracer.level.admits g

/-- Starts a span inside another one. -/
def start (r : Recorder) (grain : Grain) (name : String) (parent : Nat) : Span × Recorder :=
  if r.records grain then
    let own := r.lastSpan + 1
    let r := { r with lastSpan := own }
    ({ own := own, parent := parent, grain := grain, name := name },
      r.emit { time := r.now, kind := .start, grain := grain, span := own, parent := parent,
               name := name })
  else ({ parent := parent }, r)

/-- Ends a span. The event shares the annotations of the span if there are any by now. -/
def finish (r : Recorder) (s : Span) (detail : String) : Recorder :=
  if s.own = 0 then r
  else
    r.emit { time := r.now, kind := .finish, grain := s.grain, span := s.own, parent := s.parent,
             name := s.name, detail := detail, extra := s.extra,
             owner := if s.extra.isEmpty then 0 else s.own }

/-- Tells of something that takes no time. -/
def point (r : Recorder) (grain : Grain) (name detail : String) (parent : Nat) : Recorder :=
  if r.records grain then
    r.emit { time := r.now, kind := .point, grain := grain, parent := parent, name := name,
             detail := detail }
  else r

/-- Annotates a span, and with it the events in rings that share its annotations. -/
def annotate (r : Recorder) (s : Span) (key value : String) : Span × Recorder :=
  if s.own = 0 then (s, r)
  else
    let extra := Trace.annotate key value s.extra
    let share (e : Event) : Event := if e.owner = s.own then { e with extra := extra } else e
    let sinks := r.tracer.sinks.map fun
      | .ring l ring => .ring l { ring with slots := ring.slots.map share }
      | .stream st => .stream st
    ({ s with extra := extra }, { r with tracer := r.tracer.withSinks sinks })

/-- The `n`-th sign of life. -/
def heartbeat (r : Recorder) (n : Nat) : Recorder :=
  r.emit { time := r.now, kind := .heartbeat, grain := .driver, name := "heartbeat",
           detail := s!"#{n}" }

end Recorder

end Jasm.Trace
