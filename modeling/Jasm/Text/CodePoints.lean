/-!
# Sets of code points

Character properties are given as closed ranges of code points in ascending order, written in
hexadecimal. Leading digits that a number shares with the number before it are left out, so that
`2010-27 30-5e` are the ranges from 2010 to 2027 and from 2030 to 205e. A table is read from such
text once and then only asked for membership.
-/

namespace Jasm.Text

/-- The value of one hexadecimal digit; other characters count as zero. -/
def hexDigit (c : Char) : Nat :=
  if '0' ≤ c ∧ c ≤ '9' then c.toNat - '0'.toNat
  else if 'a' ≤ c ∧ c ≤ 'f' then c.toNat - 'a'.toNat + 10
  else if 'A' ≤ c ∧ c ≤ 'F' then c.toNat - 'A'.toNat + 10
  else 0

/-- Reads a hexadecimal number, most significant digit first. -/
def hexNumber (digits : String) : Nat :=
  digits.foldl (fun n c => 16 * n + hexDigit c) 0

def isHexDigit (c : Char) : Bool :=
  c.isDigit || ('a' ≤ c && c ≤ 'f') || ('A' ≤ c && c ≤ 'F')

def hexPairs : List Char → List UInt8
  | a :: b :: rest =>
    if isHexDigit a && isHexDigit b then (16 * hexDigit a + hexDigit b).toUInt8 :: hexPairs rest
    else []
  | _ => []

/-- Reads bytes of two hexadecimal digits each, as far as there are such. -/
def hexBytes (s : String) : List UInt8 := hexPairs s.toList

/-- The blank-separated words of a table's text. -/
def tableWords (text : String) : List String :=
  ((text.map fun c => if c = '\n' then ' ' else c).splitOn " ").filter (· ≠ "")

/-- A set of code points, as the closed ranges that make it up. -/
structure CodePoints where
  ranges : Array (Nat × Nat)

namespace CodePoints

/-- The digits of a number in a table, the ones it shares with the number before it included. -/
def completed (before digits : String) : String :=
  String.ofList (before.toList.take (before.length - digits.length)) ++ digits

/-- One range in the notation of the tables, `a-b` or `a` for a single code point, and its last
number in full. -/
def rangeOfString (before word : String) : (Nat × Nat) × String :=
  match word.splitOn "-" with
  | [lo, hi] =>
    let lo := completed before lo
    let hi := completed lo hi
    ((hexNumber lo, hexNumber hi), hi)
  | _ =>
    let code := completed before word
    ((hexNumber code, hexNumber code), code)

def ofString (text : String) : CodePoints :=
  let read := (tableWords text).foldl (fun (ranges, before) word =>
    let (range, last) := rangeOfString before word
    (ranges.push range, last)) (#[], "")
  ⟨read.1⟩

def contains (t : CodePoints) (code : Nat) : Bool :=
  t.ranges.any fun r => r.1 ≤ code && code ≤ r.2

end CodePoints

end Jasm.Text
