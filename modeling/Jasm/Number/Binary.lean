/-!
# Binary floating point as whole numbers

A finite floating-point number is `significand · 2 ^ exponent`. Decimal text is made and judged on
these two numbers alone, in exact arithmetic.
-/

namespace Jasm.Number

/-- The parameters of a binary interchange format. -/
structure Format where
  /-- Bits of the significand that are stored. -/
  fractionBits : Nat
  exponentBits : Nat

def single : Format := ⟨23, 8⟩

def double : Format := ⟨52, 11⟩

/-- The exponent of the smallest numbers. -/
def Format.minExponent (f : Format) : Int :=
  2 - (1 <<< (f.exponentBits - 1) : Nat) - f.fractionBits

/-- A decoded floating-point number without its sign. -/
inductive Magnitude where
  | nan
  | infinite
  /-- `significand · 2 ^ exponent`; `narrow` where the next smaller number is only half as far away
  as the next larger one. -/
  | finite (significand : Nat) (exponent : Int) (narrow : Bool)
  deriving DecidableEq, Repr

def Format.decode (f : Format) (bits : Nat) : Bool × Magnitude :=
  let fraction := bits % (1 <<< f.fractionBits)
  let biased := (bits >>> f.fractionBits) % (1 <<< f.exponentBits)
  let negative := (bits >>> (f.fractionBits + f.exponentBits)) % 2 = 1
  let magnitude :=
    if biased = (1 <<< f.exponentBits) - 1 then
      if fraction = 0 then .infinite else .nan
    else if biased = 0 then .finite fraction f.minExponent false
    else
      .finite (fraction + (1 <<< f.fractionBits)) (f.minExponent + (biased - 1 : Nat))
        (fraction = 0 && biased ≠ 1)
  (negative, magnitude)

end Jasm.Number
