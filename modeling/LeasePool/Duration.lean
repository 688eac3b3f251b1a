/-!
# Spans of time

A span is a whole number of nanoseconds. Its text uses the largest of the units s, ms, µs and ns
whose whole part is not zero, and then the decimal fraction without trailing zeros.
-/

namespace LeasePool

/-- A span of time, in whole nanoseconds. -/
structure Duration where
  nanos : Nat
deriving DecidableEq, Inhabited

namespace Duration

/-- The number of nanoseconds in a second. -/
def nanosPerSecond : Nat := 1000000000

/-- A span of whole seconds and further nanoseconds. -/
def ofParts (seconds nanos : Nat) : Duration := ⟨seconds * nanosPerSecond + nanos⟩

/-- A span of whole seconds. -/
def ofSeconds (seconds : Nat) : Duration := ofParts seconds 0

/-- A span of whole milliseconds. -/
def ofMillis (millis : Nat) : Duration := ⟨millis * 1000000⟩

/-- The whole seconds of a span. -/
def seconds (d : Duration) : Nat := d.nanos / nanosPerSecond

/-- The nanoseconds of a span past its whole seconds. -/
def subsecNanos (d : Duration) : Nat := d.nanos % nanosPerSecond

/-- Whether a span lasts no time at all. -/
def isZero (d : Duration) : Bool := d.nanos == 0

/-- The decimal places of `part / 10 ^ width`, without trailing zeros. -/
def fractionDigits (width part : Nat) : List Char :=
  (((Nat.toDigits 10 part).leftpad width '0').reverse.dropWhile (· == '0')).reverse

/-- A whole part, the fraction `part / 10 ^ width` if it is not zero, and the unit. -/
def written (whole width part : Nat) (unit : String) : String :=
  let fraction := String.ofList (fractionDigits width part)
  toString whole ++ (if part = 0 then "" else "." ++ fraction) ++ unit

/-- The text of a span, in the largest unit whose whole part is not zero. -/
def text (d : Duration) : String :=
  let n := d.nanos
  if nanosPerSecond ≤ n then written (n / nanosPerSecond) 9 (n % nanosPerSecond) "s"
  else if 1000000 ≤ n then written (n / 1000000) 6 (n % 1000000) "ms"
  else if 1000 ≤ n then written (n / 1000) 3 (n % 1000) "µs"
  else written n 0 0 "ns"

end Duration

end LeasePool
