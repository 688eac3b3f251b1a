import LeasePool.Decimal.Binary

/-!
# Shortest decimals that read back

Every double rounds back from the reals of an interval around it, whose ends belong to it exactly
when the mantissa is even. A double is written with the fewest digits whose value lies in that
interval; of two such values of one length the nearer one is taken, and the larger one on a tie.
The text is positional at every magnitude, and whole numbers carry no point.
-/

namespace LeasePool.Decimal

/-- A decimal number `digits * 10 ^ exponent`. -/
structure Scaled where
  digits : Nat
  exponent : Int
deriving DecidableEq

/-- The reals that round to a double, between two fractions over one denominator. -/
structure Interval where
  low : Nat
  value : Nat
  high : Nat
  denominator : Nat
  closed : Bool

/-- The gap below the smallest mantissa of a binade is half the gap above it, except where the
binades end. -/
def Binary.interval (v : Binary) : Interval :=
  let scale := Nat.pow 2 (v.exponent - 2).toNat
  let below := if v.mantissa = Nat.pow 2 52 ∧ -1074 < v.exponent then 1 else 2
  { low := (4 * v.mantissa - below) * scale
    value := 4 * v.mantissa * scale
    high := (4 * v.mantissa + 2) * scale
    denominator := Nat.pow 2 (2 - v.exponent).toNat
    closed := v.mantissa % 2 == 0 }

/-- Whether the fraction `num / den` lies in the interval. -/
def Interval.holds (i : Interval) (num den : Nat) : Bool :=
  let x := num * i.denominator
  if i.closed then i.low * den ≤ x && x ≤ i.high * den
  else i.low * den < x && x < i.high * den

/-- How many decimal digits stand before the point of `num / den`, or minus the zeros after it
when the fraction is below one. The search for those zeros ends within `fuel` places. -/
def magnitude (num den : Nat) (fuel : Nat) : Int :=
  if den ≤ num then ((Nat.toDigits 10 (num / den)).length : Int)
  else go fuel (num * 10) 0
where
  go : Nat → Nat → Int → Int
    | 0, _, k => k
    | n + 1, x, k => if den ≤ x then k else go n (x * 10) (k - 1)

/-- The neighbour of the value on the grid of multiples of `10 ^ unit` that reads back: the nearer
one if both do, the upper one on a tie. -/
def Interval.onGrid (i : Interval) (unit : Int) : Option Scaled :=
  let up := Nat.pow 10 (-unit).toNat
  let down := Nat.pow 10 unit.toNat
  let lower := i.value * up / (i.denominator * down)
  let upper := lower + 1
  let reads (c : Nat) : Bool := i.holds (c * down) up
  let belowValue := i.value * up - lower * down * i.denominator
  let aboveValue := upper * down * i.denominator - i.value * up
  match reads lower, reads upper with
  | true, true => some ⟨if belowValue < aboveValue then lower else upper, unit⟩
  | true, false => some ⟨lower, unit⟩
  | false, true => some ⟨upper, unit⟩
  | false, false => none

/-- Try one digit, two digits, and so on. -/
def Interval.shortest (i : Interval) (place : Int) : Nat → Nat → Scaled
  | 0, n =>
    ⟨i.value * Nat.pow 10 (n - place).toNat / (i.denominator * Nat.pow 10 (place - n).toNat),
      place - n⟩
  | fuel + 1, n => (i.onGrid (place - (n + 1))).getD (i.shortest place fuel (n + 1))

/-- The shortest decimal that reads back as a magnitude; seventeen digits always do. -/
def Binary.shortest (v : Binary) : Scaled :=
  let i := v.interval
  i.shortest (magnitude i.value i.denominator 400) 17 0

/-- A decimal number in positional form, without zeros after its last digit past the point. -/
def Scaled.positional (d : Scaled) : String :=
  if d.digits = 0 then "0"
  else
    let digits := Nat.toDigits 10 d.digits
    let kept := (digits.reverse.dropWhile (· == '0')).reverse
    let exponent := d.exponent + ((digits.length - kept.length : Nat) : Int)
    if 0 ≤ exponent then String.ofList (kept ++ List.replicate exponent.toNat '0')
    else
      let places := (-exponent).toNat
      if places < kept.length then
        String.ofList (kept.take (kept.length - places)) ++ "." ++
          String.ofList (kept.drop (kept.length - places))
      else "0." ++ String.ofList (kept.leftpad places '0')

/-- The shortest text of a double. -/
def shortest (x : Float) : String :=
  match Reading.ofBits x.toBits with
  | .notANumber => "NaN"
  | .infinite negative => if negative then "-inf" else "inf"
  | .finite v => (if v.negative then "-" else "") ++ v.shortest.positional

end LeasePool.Decimal
