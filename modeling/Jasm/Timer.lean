import Jasm.Json
import Jasm.Number.Fixed
import Jasm.Trace.Event

/-!
# Timers

A timer keeps the phases of a run, each with a note and the time it took. Phases of units that are
compiled at the same time overlap, so the whole time is not their sum.
-/

namespace Jasm

/-- A phase; times are in microseconds. -/
structure TimedPhase where
  name : String
  start : Int := 0
  duration : Int := 0
  note : String := ""

structure Timer where
  phases : Array TimedPhase := #[]

namespace Timer

/-- Starts a phase; gives its number. -/
def start (t : Timer) (now : Int) (name : String) : Nat × Timer :=
  (t.phases.size, ⟨t.phases.push { name := name, start := now }⟩)

/-- Ends a phase; a number that was never given out means nothing. -/
def finish (t : Timer) (now : Int) (i : Nat) (note : String) : Timer :=
  ⟨t.phases.modify i fun p => { p with duration := now - p.start, note := note }⟩

/-- The time from the first start to the last end. -/
def wall (t : Timer) : Int :=
  match t.phases.toList with
  | [] => 0
  | p :: rest =>
    let first := rest.foldl (fun n q => min n q.start) p.start
    let last := (p :: rest).foldl (fun n q => max n (q.start + q.duration)) p.start
    last - first

def millis (n : Int) : Float := Float.ofInt n / 1000.0

def lineOf (name : String) (duration : Int) (note : String) : String :=
  let time := Trace.padLeft 8 ((millis duration).fixedText 2)
  let tail := if note = "" then "" else s!"  // {note}"
  s!"  {Trace.padRight 28 name} {time} ms{tail}\n"

/-- A table of the phases. -/
def summary (t : Timer) : String :=
  "timings:\n" ++ String.join (t.phases.toList.map fun p => lineOf p.name p.duration p.note) ++
    lineOf "wall" t.wall ""

/-- The phases for programs, with times in milliseconds. -/
def report (t : Timer) : Json :=
  let phase (p : TimedPhase) : Json :=
    .obj ([("name", .str p.name), ("duration_ms", .milli p.duration)] ++
      Json.optional "note" p.note)
  .obj [("wall_ms", .milli t.wall),
    ("phases", if t.phases.isEmpty then .null else .arr (t.phases.toList.map phase))]

end Timer

end Jasm
