/-!
# Doubles read exactly

A double is `NaN`, an infinity, or a sign and a magnitude `mantissa * 2 ^ exponent` of natural
numbers. The reading is taken from the 64 bits of the format, so nothing is rounded.
-/

namespace LeasePool.Decimal

/-- A finite double: a sign and the exact magnitude `mantissa * 2 ^ exponent`. -/
structure Binary where
  negative : Bool
  mantissa : Nat
  exponent : Int
deriving DecidableEq

/-- What the 64 bits of a double stand for. -/
inductive Reading
  | notANumber
  | infinite (negative : Bool)
  | finite (value : Binary)
deriving DecidableEq

/-- Read the sign bit, the eleven exponent bits and the fraction of a double. -/
def Reading.ofBits (bits : UInt64) : Reading :=
  let n := bits.toNat
  let negative := n / Nat.pow 2 63 == 1
  let biased : Nat := n / Nat.pow 2 52 % Nat.pow 2 11
  let fraction : Nat := n % Nat.pow 2 52
  if biased = 2047 then
    if fraction = 0 then .infinite negative else .notANumber
  else if biased = 0 then .finite ⟨negative, fraction, -1074⟩
  else .finite ⟨negative, Nat.pow 2 52 + fraction, (biased : Int) - 1075⟩

/-- The numerator of a magnitude as a fraction of natural numbers. -/
def Binary.numerator (v : Binary) : Nat := v.mantissa * Nat.pow 2 v.exponent.toNat

/-- The denominator of a magnitude as a fraction of natural numbers. -/
def Binary.denominator (v : Binary) : Nat := Nat.pow 2 (-v.exponent).toNat

end LeasePool.Decimal
