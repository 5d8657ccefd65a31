import Jasm.Number.Binary

/-!
# Decimal text with a fixed number of places

The exact value of a floating-point number is rounded to a number of decimal places; a value halfway
between two goes to the even one.
-/

namespace Jasm.Number

/-- The whole number nearest to a fraction; the even one of two. -/
def nearest (num den : Nat) : Nat :=
  let below := num / den
  let rest := 2 * (num % den)
  if den < rest || (rest = den && below % 2 = 1) then below + 1 else below

/-- `m · 2 ^ q` in units of the last of some decimal places. -/
def scaled (places m : Nat) (q : Int) : Nat :=
  let units := m * Nat.pow 10 places
  if 0 ≤ q then units <<< q.toNat else nearest units (1 <<< (-q).toNat)

/-- The digits of `n`, with zeros in front up to a width. -/
def paddedDigits (width n : Nat) : String :=
  let digits := toString n
  "".pushn '0' (width - digits.length) ++ digits

/-- The text of `n` units of the last of some decimal places. -/
def placesText (places n : Nat) : String :=
  let unit := Nat.pow 10 places
  toString (n / unit) ++ "." ++ paddedDigits places (n % unit)

end Jasm.Number

def Float.fixedText (places : Nat) (x : Float) : String :=
  match Jasm.Number.double.decode x.toBits.toNat with
  | (_, .nan) => "NaN"
  | (negative, .infinite) => if negative then "-Inf" else "+Inf"
  | (negative, .finite m q _) =>
    (if negative then "-" else "") ++
      Jasm.Number.placesText places (Jasm.Number.scaled places m q)
