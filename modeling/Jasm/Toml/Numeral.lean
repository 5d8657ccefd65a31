import Jasm.Toml.Moment

/-!
# Numbers

Integers are decimal with an optional sign, or hexadecimal, octal or binary without one, and have
64 bits. Floats have a fraction, an exponent or both. An underscore may stand between two digits,
and no number starts with a zero that means nothing.
-/

namespace Jasm.Toml.Numeral

/-- Whether every underscore stands between digits, and the text ends in a digit. -/
def underscoresOk (cs : List Char) : Bool := go false cs
where
  go : Bool → List Char → Bool
    | digitBefore, [] => digitBefore
    | digitBefore, c :: rest => (c ≠ '_' || digitBefore) && go (isHexDigit c) rest

/-- Whether a zero stands in front of a decimal number. -/
def hasLeadingZero : List Char → Bool
  | '0' :: _ :: _ => true
  | c :: '0' :: _ :: _ => c = '-' || c = '+'
  | _ => false

def digitValue (c : Char) : Nat :=
  if c.isDigit then c.toNat - '0'.toNat else c.toLower.toNat - 'a'.toNat + 10

/-- The value of digits in a base; underscores are passed over. -/
def natural (base : Nat) (cs : List Char) : Nat :=
  cs.foldl (fun n c => if c = '_' then n else base * n + digitValue c) 0

/-- Splits off a sign. -/
def signed : List Char → Bool × List Char
  | '-' :: rest => (true, rest)
  | '+' :: rest => (false, rest)
  | cs => (false, cs)

/-- An integer of 64 bits. -/
def ranged (n : Int) : Option Node :=
  if -0x8000000000000000 ≤ n && n < 0x8000000000000000 then some (.integer n) else none

def decimal (cs : List Char) : Option Node :=
  let (negative, digits) := signed cs
  let n : Int := natural 10 digits
  if underscoresOk cs && !hasLeadingZero cs then ranged (if negative then -n else n) else none

/-- The number `digits · 10 ^ exponent`, unless it is too large. Far beyond the range of the format
the position of the first digit alone decides. -/
def scientific (negative : Bool) (digits : List Char) (exponent : Int) : Option Node := do
  let m := natural 10 digits
  let magnitude := (toString m).length + exponent
  guard (m = 0 || magnitude ≤ 400)
  let x : Float :=
    if m = 0 || magnitude < -400 then 0.0
    else Float.ofScientific m (exponent < 0) exponent.natAbs
  guard !x.isInf
  return .float (if negative then -x else x)

/-- The parts of a float between points and exponent marks. -/
def floatParts (cs : List Char) : List (List Char) :=
  (cs.splitBy fun a b => !isMark a && !isMark b).filter fun part => !part.all isMark
where
  isMark (c : Char) : Bool := c = '.' || c = 'e' || c = 'E'

/-- Whether a digit follows every point. -/
def pointsOk : List Char → Bool
  | [] => true
  | ['.'] => false
  | '.' :: c :: rest => c.isDigit && pointsOk (c :: rest)
  | _ :: rest => pointsOk rest

def exponent (cs : List Char) : Option Int :=
  let (negative, digits) := signed cs
  if !digits.isEmpty && digits.all Char.isDigit then
    let n : Int := natural 10 digits
    some (if negative then -n else n)
  else none

def isExponentMark (c : Char) : Bool := c = 'e' || c = 'E'

def float (cs : List Char) : Option Node := do
  let parts := floatParts cs
  guard (parts.all underscoresOk && !(parts.head?.map hasLeadingZero).getD false && pointsOk cs)
  let (negative, body) := signed (cs.filter (· ≠ '_'))
  let (mantissa, tail) := body.span fun c => !isExponentMark c
  let (whole, point) := mantissa.span Char.isDigit
  let places := point.drop 1
  guard (!whole.isEmpty && places.all Char.isDigit && point.take 1 ∈ [[], ['.']])
  let e ← match tail with
    | [] => pure 0
    | _ :: digits => exponent digits
  scientific negative (whole ++ places) (e - (places.length : Int))

def isFloatChar (c : Char) : Bool :=
  c.isDigit || c = '_' || c = '.' || c = '-' || c = '+' || c = 'e' || c = 'E'

def isMomentChar (c : Char) : Bool :=
  c.isDigit || c ∈ ['-', ':', 'T', 't', ' ', '.', 'Z', 'z', '+']

/-- Reads an integer in another base. -/
def based (base : Nat) (isDigit : Char → Bool) : Reader Node := do
  let digits ← Reader.run fun c => isDigit c || c = '_'
  guard ((digits.head?.map isDigit).getD false && underscoresOk digits)
  ranged (natural base digits)

/-- Reads a decimal number, whose sign was read. -/
def plain (sign : List Char) : Reader Node := do
  let whole ← Reader.run fun c => c.isDigit || c = '_'
  match ← get with
  | c :: _ =>
    if c = '.' || isExponentMark c then
      let rest ← Reader.run isFloatChar
      float (sign ++ whole ++ rest)
    else decimal (sign ++ whole)
  | [] => decimal (sign ++ whole)

/-- Reads a moment. Blanks behind it do not belong to it. -/
def moment : Reader Node := do
  let text ← Reader.run isMomentChar
  guard (Moment.isValid (text.reverse.dropWhile (· = ' ')).reverse)
  return .moment

def infinity : Float := 1.0 / 0.0

def notANumber : Float := 0.0 / 0.0

/-- Reads a number with a sign. -/
def withSign (sign : Char) : Reader Node := do
  match ← get with
  | 'i' :: 'n' :: 'f' :: rest =>
    set rest
    return .float (if sign = '-' then -infinity else infinity)
  | 'n' :: 'a' :: 'n' :: rest =>
    set rest
    return .float notANumber
  | c :: _ => if c.isDigit then plain [sign] else failure
  | [] => failure

/-- Reads a number or a moment that starts with a digit. -/
def withDigit : Reader Node := do
  match ← get with
  | '0' :: 'x' :: rest => set rest; based 16 isHexDigit
  | '0' :: 'o' :: rest => set rest; based 8 fun c => '0' ≤ c && c ≤ '7'
  | '0' :: 'b' :: rest => set rest; based 2 fun c => c = '0' || c = '1'
  | cs =>
    let (digits, rest) := cs.span Char.isDigit
    match rest with
    | c :: _ => if (c = '-' || c = ':') && digits ≠ ['0'] then moment else plain []
    | [] => plain []

end Jasm.Toml.Numeral
