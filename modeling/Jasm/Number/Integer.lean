/-!
# Reading whole numbers

A whole number is written in decimal, or with `0b`, `0o` or `0x` in front in another base; a zero in
front alone means base eight. Between digits, and behind what announces the base, there may be
single underscores. Numbers are those of 64 bits.
-/

namespace Jasm.Number

/-- Why a text is no number. -/
inductive IntegerFault where
  | syntactic
  | range
  deriving DecidableEq, Repr

def IntegerFault.message : IntegerFault → String
  | .syntactic => "invalid syntax"
  | .range => "value out of range"

/-- The value of a digit; letters count on from ten. -/
def digitValue? (c : Char) : Option Nat :=
  if c.isDigit then some (c.toNat - '0'.toNat)
  else if c.isAlpha then some (c.toLower.toNat - 'a'.toNat + 10)
  else none

/-- The base that a text announces, and its digits. -/
def splitBase : List Char → Nat × List Char
  | '0' :: c :: d :: rest =>
    match c.toLower with
    | 'b' => (2, d :: rest)
    | 'o' => (8, d :: rest)
    | 'x' => (16, d :: rest)
    | _ => (8, c :: d :: rest)
  | '0' :: rest => (8, rest)
  | cs => (10, cs)

/-- Reads digits up to the end. A number that is too large is refused at once, whatever follows. -/
def readDigits (base : Nat) : (value : Nat) → List Char → Except IntegerFault Nat
  | value, [] => .ok value
  | value, '_' :: rest => readDigits base value rest
  | value, c :: rest =>
    match digitValue? c with
    | none => .error .syntactic
    | some d =>
      if base ≤ d then .error .syntactic
      else if 0x10000000000000000 ≤ value * base + d then .error .range
      else readDigits base (value * base + d) rest

/-- Whether each underscore stands between two digits; `digit` says whether one came right
before. -/
def goodUnderscores : (digit : Bool) → List Char → Bool
  | _, [] => true
  | digit, '_' :: rest =>
    digit && (match rest with
      | c :: _ => c ≠ '_'
      | [] => false) && goodUnderscores false rest
  | _, _ :: rest => goodUnderscores true rest

/-- Whether the underscores of a number are well placed; what announces a base counts as a digit. -/
def underscoresFit (cs : List Char) : Bool :=
  match cs with
  | '0' :: c :: rest =>
    if c.toLower = 'b' || c.toLower = 'o' || c.toLower = 'x' then goodUnderscores true rest
    else goodUnderscores false cs
  | _ => goodUnderscores false cs

def parseMagnitude (cs : List Char) : Except IntegerFault Nat :=
  if cs.isEmpty then .error .syntactic
  else
    let (base, digits) := splitBase cs
    match readDigits base 0 digits with
    | .ok n => if cs.contains '_' && !underscoresFit cs then .error .syntactic else .ok n
    | .error e => .error e

def parseInteger (s : String) : Except IntegerFault Int := do
  let (negative, cs) := match s.toList with
    | '+' :: rest => (false, rest)
    | '-' :: rest => (true, rest)
    | cs => (false, cs)
  let n ← parseMagnitude cs
  if negative then
    if 0x8000000000000000 < n then throw .range else return -n
  else
    if 0x8000000000000000 ≤ n then throw .range else return n

def wrap64 (n : Int) : Int :=
  (n + 0x8000000000000000) % 0x10000000000000000 - 0x8000000000000000

end Jasm.Number
