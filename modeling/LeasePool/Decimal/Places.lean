import LeasePool.Decimal.Binary

/-!
# Fixed decimal places

A double is written with a fixed number of places after the point. The exact value is rounded to
the nearest grid point, and a value half way between two of them goes to the even one.
-/

namespace LeasePool.Decimal

/-- The quotient rounded to the nearest natural number, a half going to the even neighbour. -/
def roundDiv (num den : Nat) : Nat :=
  let q := num / den
  let r := num % den
  if 2 * r < den then q
  else if den < 2 * r then q + 1
  else if q % 2 = 0 then q else q + 1

/-- A whole number of units of `10 ^ (-places)`, written with all its places. -/
def pointed (places units : Nat) : String :=
  let unit := Nat.pow 10 places
  let whole := toString (units / unit)
  if places = 0 then whole
  else whole ++ "." ++ String.ofList ((Nat.toDigits 10 (units % unit)).leftpad places '0')

/-- A double with a fixed number of decimal places. -/
def places (count : Nat) (x : Float) : String :=
  match Reading.ofBits x.toBits with
  | .notANumber => "NaN"
  | .infinite negative => if negative then "-inf" else "inf"
  | .finite v =>
    (if v.negative then "-" else "") ++
      pointed count (roundDiv (v.numerator * Nat.pow 10 count) v.denominator)

end LeasePool.Decimal
