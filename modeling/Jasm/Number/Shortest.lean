import Jasm.Number.Binary

/-!
# Shortest decimal text

The text of a floating-point number has the fewest digits that read back as the same number and,
among those, the ones nearest to it.

The reals that round to `m · 2 ^ q` form an interval around it, whose ends belong to it exactly if
`m` is even. For one digit, two digits and so on the two neighbours of the number on the grid of
that many digits are tested against the interval in exact arithmetic; the first grid with a hit
gives the digits.
-/

namespace Jasm.Number

/-- The positive decimal number `digits · 10 ^ exponent`. -/
structure Decimal where
  digits : Nat
  exponent : Int
  deriving DecidableEq, Repr

structure Fraction where
  num : Nat
  den : Nat

/-- `n · 2 ^ e` as a fraction. -/
def Fraction.ofBinary (n : Nat) (e : Int) : Fraction :=
  if 0 ≤ e then ⟨n <<< e.toNat, 1⟩ else ⟨n, 1 <<< (-e).toNat⟩

def Fraction.shift (x : Fraction) (e : Int) : Fraction :=
  if 0 ≤ e then ⟨x.num * Nat.pow 10 e.toNat, x.den⟩ else ⟨x.num, x.den * Nat.pow 10 (-e).toNat⟩

/-- How many decimal places a fraction below one has to be moved to reach one; no number of the
formats needs more than `limit`. -/
def Fraction.places (x : Fraction) : (limit : Nat) → Nat
  | 0 => 0
  | limit + 1 => if x.den ≤ x.num then 0 else places ⟨x.num * 10, x.den⟩ limit + 1

/-- The position of the first digit: `e` with `10 ^ e ≤ x < 10 ^ (e + 1)`. -/
def Fraction.magnitude (x : Fraction) : Int :=
  if x.den ≤ x.num then ((toString (x.num / x.den)).length : Int) - 1
  else -(x.places 400 : Nat)

/-- The interval of reals that round to one number, as numerators over a common denominator. -/
structure Rounding where
  low : Nat
  value : Nat
  high : Nat
  den : Nat
  closed : Bool

def Rounding.holds (r : Rounding) (candidate : Nat) : Bool :=
  let c := candidate * r.den
  if r.closed then r.low ≤ c && c ≤ r.high else r.low < c && c < r.high

/-- The interval of `m · 2 ^ q`, moved so that the grid to test is the whole numbers: its unit is
`10 ^ unit`. -/
def rounding (m : Nat) (q : Int) (narrow : Bool) (unit : Int) : Rounding :=
  let f := (Fraction.ofBinary 1 (q - 2)).shift (-unit)
  ⟨(4 * m - if narrow then 1 else 2) * f.num, 4 * m * f.num, (4 * m + 2) * f.num, f.den,
    m % 2 = 0⟩

/-- The neighbour of the number on the grid of whole numbers that rounds to it, if there is one;
the nearer of two, and the even one where both are equally near. -/
def Rounding.pick (r : Rounding) : Option Nat :=
  let below := r.value / r.den
  let above := below + 1
  match r.holds below, r.holds above with
  | true, true =>
    let down := r.value - below * r.den
    let up := above * r.den - r.value
    if down < up || (down = up && below % 2 = 0) then some below else some above
  | true, false => some below
  | false, true => some above
  | false, false => none

def shortestFrom (m : Nat) (q : Int) (narrow : Bool) (unit : Int) : (tries : Nat) → Decimal
  | 0 => ⟨m, q⟩
  | tries + 1 =>
    match (rounding m q narrow unit).pick with
    | some digits => ⟨digits, unit⟩
    | none => shortestFrom m q narrow (unit - 1) tries

/-- The shortest decimal number that rounds to `m · 2 ^ q`, for positive `m`. -/
def shortest (m : Nat) (q : Int) (narrow : Bool) : Decimal :=
  shortestFrom m q narrow (Fraction.ofBinary m q).magnitude 20

/-! ## Notation -/

/-- Writes digits with the point behind the first `point` of them, filling with zeros. -/
def positional (digits : List Char) (point : Int) : List Char :=
  if point ≤ 0 then '0' :: '.' :: List.replicate (-point).toNat '0' ++ digits
  else
    let whole := digits.take point.toNat
    let rest := digits.drop point.toNat
    whole ++ List.replicate (point.toNat - whole.length) '0' ++
      (if rest.isEmpty then [] else '.' :: rest)

/-- Writes digits in scientific form; the exponent has a sign and at least two digits. -/
def scientific (digits : List Char) (exponent : Int) : List Char :=
  let tail := digits.drop 1
  let e := (toString exponent.natAbs).toList
  digits.take 1 ++ (if tail.isEmpty then [] else '.' :: tail) ++
    ['e', if exponent < 0 then '-' else '+'] ++ (if e.length < 2 then '0' :: e else e)

/-- The significant digits of a decimal number and the position of the first one. Zeros at the end
are dropped. -/
def Decimal.significant (d : Decimal) : List Char × Int :=
  let all := (toString d.digits).toList
  ((all.reverse.dropWhile (· = '0')).reverse, d.exponent + all.length - 1)

/-- Numbers from `0.0001` to below a million are written plainly, all others in scientific form. -/
def Decimal.text (d : Decimal) : List Char :=
  let (digits, first) := d.significant
  if first < -4 || 6 ≤ first then scientific digits first else positional digits (first + 1)

def Format.text (f : Format) (bits : Nat) : String :=
  match f.decode bits with
  | (_, .nan) => "NaN"
  | (negative, .infinite) => if negative then "-Inf" else "+Inf"
  | (negative, .finite m q narrow) =>
    let body := if m = 0 then ['0'] else (shortest m q narrow).text
    String.ofList (if negative then '-' :: body else body)

end Jasm.Number

def Float32.shortestText (x : Float32) : String := Jasm.Number.single.text x.toBits.toNat

def Float.shortestText (x : Float) : String := Jasm.Number.double.text x.toBits.toNat
