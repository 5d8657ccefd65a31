import Jasm.Json
import Jasm.Number.Fixed
import Jasm.Sorted
import Jasm.Text.Blank

/-!
# Trace events

A trace tells what happened during a run: spans of work with a beginning and an end, single points,
and signs of life. Each event has a grain, from the whole run down to one statement, and the level
of a trace decides down to which grain events are recorded.
-/

namespace Jasm.Trace

/-- How much is recorded. -/
inductive Level where
  | off
  | error
  | phase
  | detail
  | debug
  | other (code : Nat)
  deriving DecidableEq, Repr

/-- What an event tells. -/
inductive EventKind where
  | start
  | finish
  | point
  | heartbeat
  | other (code : Nat)
  deriving DecidableEq, Repr

/-- How fine an event is; a larger rank is finer. -/
inductive Grain where
  | driver
  | unit
  | pass
  | stmt
  | other (rank : Nat)
  deriving DecidableEq, Repr

namespace Grain

def rank : Grain → Nat
  | .driver => 1
  | .unit => 2
  | .pass => 3
  | .stmt => 4
  | .other n => n

def ofRank : Nat → Grain
  | 1 => .driver
  | 2 => .unit
  | 3 => .pass
  | 4 => .stmt
  | n => .other n

def text : Grain → String
  | .driver => "driver"
  | .unit => "unit"
  | .pass => "pass"
  | .stmt => "stmt"
  | .other _ => "unknown"

end Grain

namespace EventKind

def ofCode : Nat → EventKind
  | 1 => .start
  | 2 => .finish
  | 3 => .point
  | 4 => .heartbeat
  | n => .other n

def text : EventKind → String
  | .start => "begin"
  | .finish => "end"
  | .point => "point"
  | .heartbeat => "heartbeat"
  | .other _ => "unknown"

/-- The mark in front of the name of an event. -/
def mark : EventKind → String
  | .start => "→ "
  | .finish => "← "
  | .point => "• "
  | .heartbeat => "♡ "
  | .other _ => ""

end EventKind

namespace Level

def ofCode : Nat → Level
  | 0 => .off
  | 1 => .error
  | 2 => .phase
  | 3 => .detail
  | 4 => .debug
  | n => .other n

def text : Level → String
  | .off => "off"
  | .error => "error"
  | .phase => "phase"
  | .detail => "detail"
  | .debug => "debug"
  | .other _ => "unknown"

/-- Whether events of a grain are recorded. -/
def admits : Level → Grain → Bool
  | .phase, g => g.rank ≤ Grain.unit.rank
  | .detail, g => g.rank ≤ Grain.pass.rank
  | .debug, _ => true
  | _, _ => false

/-- Whether there is a trace at all. At the level of errors it only serves to be shown after a
failure. -/
def isEnabled (l : Level) : Bool := l ≠ .off

/-- Reads the name of a level, whatever its case. -/
def parse (s : String) : Except String Level :=
  match Text.lower s with
  | "off" => .ok .off
  | "error" => .ok .error
  | "phase" => .ok .phase
  | "detail" => .ok .detail
  | "debug" => .ok .debug
  | _ =>
    .error s!"invalid trace level: {Text.quoted s} (expected: off|error|phase|detail|debug)"

end Level

/-- Where events are kept. -/
inductive Storage where
  /-- Each event is written at once. -/
  | stream
  /-- The last events are kept in memory. -/
  | ring
  | both
  | other (code : Nat)
  deriving DecidableEq, Repr

namespace Storage

def ofCode : Nat → Storage
  | 1 => .stream
  | 2 => .ring
  | 3 => .both
  | n => .other n

def text : Storage → String
  | .stream => "stream"
  | .ring => "ring"
  | .both => "both"
  | .other _ => "unknown"

def parse (s : String) : Except String Storage :=
  match Text.lower s with
  | "stream" => .ok .stream
  | "ring" => .ok .ring
  | "both" => .ok .both
  | _ => .error s!"invalid storage mode: {Text.quoted s} (expected: stream|ring|both)"

end Storage

/-- How events are written. -/
inductive Format where
  /-- Decided by the name of the file. -/
  | auto
  | text
  /-- One JSON object on each line. -/
  | ndjson
  deriving DecidableEq, Repr

namespace Format

def code : Format → Nat
  | .auto => 0
  | .text => 1
  | .ndjson => 2

def parse (s : String) : Except String Format :=
  match Text.lower s with
  | "" | "auto" => .ok .auto
  | "text" => .ok .text
  | "ndjson" | "json" => .ok .ndjson
  | _ => .error s!"invalid trace format: {Text.quoted s} (expected: auto|text|ndjson)"

end Format

/-- One event. Times are microseconds since the start of 1970. -/
structure Event where
  time : Int := 0
  /-- The number of the event; zero while none is given. -/
  seq : Nat := 0
  kind : EventKind := .other 0
  grain : Grain := .other 0
  span : Nat := 0
  /-- The span around this event; zero if there is none. -/
  parent : Nat := 0
  name : String := ""
  detail : String := ""
  /-- Annotations, in the order of their names. -/
  extra : List (String × String) := []
  /-- The span that the annotations are shared with; zero if they are the event's own. -/
  owner : Nat := 0

/-- Adds an annotation in its place, or replaces the one of the same name. -/
def annotate (key value : String) : List (String × String) → List (String × String) :=
  insertBy Prod.fst (key, value)

/-! ## Text -/

/-- The date of a day counted from the start of 1970: year, month and day. -/
def dateOfDay (day : Int) : Int × Nat × Nat :=
  -- Years start in March, so that the leap day is the last one; an era is 400 years.
  let z := day + 719468
  let era := Int.fdiv z 146097
  let doe := (z - era * 146097).toNat
  let yoe := (doe - doe / 1460 + doe / 36524 - doe / 146096) / 365
  let doy := doe - (365 * yoe + yoe / 4 - yoe / 100)
  let mp := (5 * doy + 2) / 153
  let month := if mp < 10 then mp + 3 else mp - 9
  (yoe + era * 400 + (if month ≤ 2 then 1 else 0), month, doy - (153 * mp + 2) / 5 + 1)

/-- A time in universal time to the microsecond. -/
def timeText (time : Int) : String :=
  let two := Number.paddedDigits 2
  let second := Int.fdiv time 1000000
  let micros := (time - second * 1000000).toNat
  let day := Int.fdiv second 86400
  let rest := (second - day * 86400).toNat
  let (year, month, date) := dateOfDay day
  let yearText := (if year < 0 then "-" else "") ++ Number.paddedDigits 4 year.natAbs
  s!"{yearText}-{two month}-{two date}T" ++
    s!"{two (rest / 3600)}:{two (rest / 60 % 60)}:{two (rest % 60)}." ++
    s!"{Number.paddedDigits 6 micros}Z"

/-- The longest duration that is told apart, in microseconds. -/
def maxElapsed : Int := 9223372036854775

/-- The start of the year 1, which stands for no time. -/
def noTime : Int := -62135596800000000

/-- The time from `since` to an event, in milliseconds; zero where there is nothing to count
from. -/
def elapsed (since : Option Int) (time : Int) : Float :=
  match since with
  | none => 0.0
  | some start =>
    if start = noTime then 0.0
    else Float.ofInt (max (-maxElapsed) (min maxElapsed (time - start))) / 1000.0

def padLeft (width : Nat) (s : String) : String := "".pushn ' ' (width - s.length) ++ s

def padRight (width : Nat) (s : String) : String := s.pushn ' ' (width - s.length)

namespace Event

/-- The event as a line of text; its time is counted from `since`. -/
def lineText (since : Option Int) (e : Event) : String :=
  let time := padLeft 9 ((elapsed since e.time).fixedText 3)
  let detail := if e.detail = "" then "" else s!" ({e.detail})"
  let extra := if e.extra.isEmpty then ""
    else " \x7b" ++ ", ".intercalate (e.extra.map fun (k, v) => s!"{k}={v}") ++ "\x7d"
  s!"[{time}ms] {padRight 6 e.grain.text} " ++ "".pushn ' ' (2 * (e.grain.rank - 1)) ++
    e.kind.mark ++ e.name ++ detail ++ extra ++ "\n"

/-- A number that is left out if it is zero. -/
def optionalNumber (name : String) (n : Nat) : List (String × Json) :=
  if n = 0 then [] else [(name, .int n)]

def toJson (e : Event) : Json :=
  .obj ([("time", .str (timeText e.time)), ("seq", .int e.seq), ("kind", .str e.kind.text),
    ("scope", .str e.grain.text)] ++ optionalNumber "span_id" e.span ++
    optionalNumber "parent_id" e.parent ++ [("name", .str e.name)] ++
    Json.optional "detail" e.detail ++
    (if e.extra.isEmpty then []
      else [("extra", .obj (e.extra.map fun (k, v) => (k, .str v)))]))

/-- The event in a format; text unless JSON is asked for. -/
def text (format : Format) (since : Option Int) (e : Event) : String :=
  match format with
  | .ndjson => e.toJson.compact ++ "\n"
  | _ => e.lineText since

end Event

end Jasm.Trace
