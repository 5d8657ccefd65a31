import Jasm.Toml.Node

/-!
# Dates and times

A moment is a date, a time of day, or both with or without an offset from universal time. A date
has to exist in the calendar. The hour may have one digit, and a fraction of a second any number
of them.
-/

namespace Jasm.Toml.Moment

/-- Reads exactly `n` digits. -/
def digits : (n : Nat) → (value : Nat) → Reader Nat
  | 0, value => pure value
  | n + 1, value => do
    match ← get with
    | c :: rest =>
      if c.isDigit then
        set rest
        digits n (10 * value + (c.toNat - '0'.toNat))
      else failure
    | [] => failure

/-- Reads a number of `n` digits in a range. -/
def within (n lo hi : Nat) : Reader Nat := do
  let value ← digits n 0
  guard (lo ≤ value ∧ value ≤ hi)
  return value

def isLeapYear (year : Nat) : Bool := year % 4 = 0 && (year % 100 ≠ 0 || year % 400 = 0)

def daysInMonth (year month : Nat) : Nat :=
  match month with
  | 2 => if isLeapYear year then 29 else 28
  | 4 | 6 | 9 | 11 => 30
  | _ => 31

def date : Reader Unit := do
  let year ← digits 4 0
  Reader.char '-'
  let month ← within 2 1 12
  Reader.char '-'
  let _ ← within 2 1 (daysInMonth year month)

/-- The hour has two digits, or one that no digit follows. -/
def hour : Reader Unit := do
  match ← get with
  | _ :: c :: _ => if c.isDigit then let _ ← within 2 0 23 else let _ ← within 1 0 9
  | _ => failure

/-- The fraction of a second, if there is one. -/
def fraction : Reader Unit := do
  match ← get with
  | '.' :: c :: rest => if c.isDigit then set (rest.dropWhile Char.isDigit)
  | _ => pure ()

def timeOfDay : Reader Unit := do
  hour
  Reader.char ':'
  let _ ← within 2 0 59
  Reader.char ':'
  let _ ← within 2 0 59
  fraction

/-- The offset from universal time, if there is one. -/
def offset : Reader Unit := do
  match ← get with
  | [] => pure ()
  | 'Z' :: rest => set rest
  | c :: rest =>
    guard (c = '+' ∨ c = '-')
    set rest
    let _ ← within 2 0 24
    Reader.char ':'
    let _ ← within 2 0 60

/-- A date with what may follow it. -/
def dated : Reader Unit := do
  date
  match ← get with
  | 'T' :: rest =>
    set rest
    timeOfDay
    offset
  | _ => pure ()

def readsAll (r : Reader Unit) (cs : List Char) : Bool :=
  match r cs with
  | some ((), []) => true
  | _ => false

/-- Whether a text is a moment. The letters may be small, and a space may stand between date and
time. -/
def isValid (cs : List Char) : Bool :=
  let plain := cs.map fun c => if c = 't' || c = ' ' then 'T' else if c = 'z' then 'Z' else c
  readsAll dated plain || readsAll timeOfDay plain

end Jasm.Toml.Moment
