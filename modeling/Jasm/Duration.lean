import Jasm.Text.Quoted

/-!
# Reading durations

A duration is a sequence of numbers with units, such as `1h30m` or `2.5s`, with a sign in front of
all of it. It is counted in nanoseconds and has to fit into 64 bits.
-/

namespace Jasm.Duration

/-- Why a text is no duration. -/
inductive Fault where
  | invalid (text : String)
  | missingUnit (text : String)
  | unknownUnit (unit text : String)
  deriving DecidableEq, Repr

/-- One character between quotes: all but printable ASCII is shown byte by byte. -/
def shownChar (c : Char) : List Char :=
  if c.toNat < 0x20 || 0x80 ≤ c.toNat then
    (String.singleton c).toUTF8.toList.flatMap fun b => '\\' :: 'x' :: Text.hexDigits 2 b.toNat
  else if c = '"' || c = '\\' then ['\\', c]
  else [c]

def shown (s : String) : String := String.ofList ('"' :: s.toList.flatMap shownChar ++ ['"'])

def Fault.message : Fault → String
  | .invalid s => s!"time: invalid duration {shown s}"
  | .missingUnit s => s!"time: missing unit in duration {shown s}"
  | .unknownUnit unit s => s!"time: unknown unit {shown unit} in duration {shown s}"

/-- The nanoseconds of a unit. -/
def unit? : String → Option Nat
  | "ns" => some 1
  | "us" | "µs" | "μs" => some 1000
  | "ms" => some 1000000
  | "s" => some 1000000000
  | "m" => some 60000000000
  | "h" => some 3600000000000
  | _ => none

/-- The largest number that is read. -/
def limit : Nat := 0x8000000000000000

def isNumberChar (c : Char) : Bool := c = '.' || c.isDigit

def digitValue (c : Char) : Nat := c.toNat - '0'.toNat

/-- The whole part of a number, unless it passes the limit. -/
def whole? (ds : List Char) : Option Nat :=
  ds.foldlM (fun n c =>
    let n := 10 * n + digitValue c
    if n ≤ limit then some n else none) 0

/-- A fraction: its digits as a number, and the power of ten they are divided by. -/
structure Fraction where
  digits : Nat := 0
  scale : Float := 1.0

/-- Reads the digits of a fraction; those that no longer fit are dropped. -/
def Fraction.ofDigits (f : Fraction) : List Char → Fraction
  | [] => f
  | c :: rest =>
    if (limit - 1) / 10 < f.digits then f
    else if limit < 10 * f.digits + digitValue c then f
    else ofDigits ⟨10 * f.digits + digitValue c, f.scale * 10.0⟩ rest

/-- The whole nanoseconds in a fraction of a unit, computed in double precision. -/
def Fraction.nanoseconds (f : Fraction) (unit : Nat) : Nat :=
  (Float.ofNat f.digits * (Float.ofNat unit / f.scale)).toUInt64.toNat

/-- Reads one number with its unit from the front of `cs`, which is part of `whole`; gives the
nanoseconds and the rest. -/
def readPart (whole : String) (cs : List Char) : Except Fault (Nat × List Char) := do
  let (before, rest) := cs.span Char.isDigit
  let some n := whole? before | throw (.invalid whole)
  let (after, rest) := match rest with
    | '.' :: rest => rest.span Char.isDigit
    | _ => ([], rest)
  if before.isEmpty && after.isEmpty then throw (.invalid whole)
  let (unit, rest) := rest.span fun c => !isNumberChar c
  if unit.isEmpty then throw (.missingUnit whole)
  match unit? (String.ofList unit) with
  | none => throw (.unknownUnit (String.ofList unit) whole)
  | some size =>
    if limit / size < n then throw (.invalid whole)
    let n := n * size + (Fraction.ofDigits {} after).nanoseconds size
    if limit < n then throw (.invalid whole)
    return (n, rest)

/-- Reads numbers with units up to the end, `parts` of them at most. The sum is kept in 64 bits. -/
def readParts (whole : String) : (parts total : Nat) → List Char → Except Fault Nat
  | 0, total, _ => .ok total
  | parts + 1, total, cs =>
    if cs.isEmpty then .ok total
    else do
      let (n, rest) ← readPart whole cs
      let total := (total + n) % 0x10000000000000000
      if limit < total then throw (.invalid whole)
      readParts whole parts total rest

/-- Reads a duration in nanoseconds. -/
def parse (s : String) : Except Fault Int := do
  let (negative, cs) := match s.toList with
    | '+' :: rest => (false, rest)
    | '-' :: rest => (true, rest)
    | cs => (false, cs)
  if cs = ['0'] then return 0
  if cs.isEmpty then throw (.invalid s)
  let n ← readParts s cs.length 0 cs
  if negative then return -n
  if limit ≤ n then throw (.invalid s)
  return n

end Jasm.Duration
