import LeasePool.Config
import LeasePool.Decimal.Places

/-!
# Pool status

A status counts the slots of a pool by state, together with the target and its bounds. The
warnings for an operator follow from these counts alone.
-/

namespace LeasePool

/-- The counts of a pool at one moment. -/
structure Status where
  /-- Resources available for acquisition. -/
  idle : Nat
  /-- Resources held by callers. -/
  inUse : Nat
  /-- Idle resources under a health check. -/
  pending : Nat
  /-- Reserved creations. -/
  creating : Nat
  /-- The count that the keeper converges to. -/
  desired : Nat
  /-- Lower bound of the desired count. -/
  min : Nat
  /-- Upper bound of the live resources. -/
  max : Nat
deriving DecidableEq, Inhabited

/-- The quotient of two counts, zero over a zero count. -/
def ratio (part whole : Nat) : Float :=
  if whole = 0 then 0.0 else Float.ofNat part / Float.ofNat whole

/-- A condition worth a look from an operator. -/
inductive Warning
  | highUtilization (ratio : Float)
  | nothingLeft
  | belowMinimum (live min : Nat)

/-- The text of a warning. -/
def Warning.text : Warning → String
  | highUtilization ratio => "High utilization: " ++ Decimal.places 1 (ratio * 100.0) ++ "%"
  | nothingLeft => "No idle resources and pool at capacity"
  | belowMinimum live min => s!"Below minimum: {live} live of {min} required"

namespace Status

/-- The resources that exist or are being created. The sum is a word. -/
def live (s : Status) : Nat := wrap (s.idle + s.inUse + s.pending + s.creating)

/-- The share of the capacity held by callers. -/
def utilization (s : Status) : Float := ratio s.inUse s.max

/-- Whether no more resources may be made. -/
def atCapacity (s : Status) : Bool := s.max ≤ s.live

/-- What is wrong with a pool, in a fixed order. -/
def warnings (s : Status) : List Warning :=
  (if 0.9 < s.utilization then [.highUtilization s.utilization] else []) ++
  (if s.idle = 0 ∧ s.atCapacity then [.nothingLeft] else []) ++
  (if s.live < s.min then [.belowMinimum s.live s.min] else [])

/-- Whether nothing is wrong with a pool. -/
def isHealthy (s : Status) : Bool := s.warnings.isEmpty

/-- A pool is at capacity if its live resources reach the maximum. -/
theorem atCapacity_iff (s : Status) : s.atCapacity = true ↔ s.max ≤ s.live := by
  simp only [atCapacity, decide_eq_true_eq]

end Status

end LeasePool
