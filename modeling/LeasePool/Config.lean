import LeasePool.Eviction

/-!
# Pool configuration

A configuration holds the three counts, the two background jobs with their intervals, when health
checks run, and how long idle resources may stay. Counts are 64-bit words. It is checked once, when
a pool is built: the first flaw found is reported.
-/

namespace LeasePool

/-- The largest count that a 64-bit word holds. -/
def countLimit : Nat := UInt64.size - 1

/-- A count as a 64-bit word holds it. -/
def wrap (n : Nat) : Nat := n % UInt64.size

/-- A word holds a count that is not too large. -/
theorem wrap_of_le {n : Nat} (h : n ≤ countLimit) : wrap n = n :=
  Nat.mod_eq_of_lt (Nat.lt_of_le_pred (by decide) h)

/-- Parts of a sum may be wrapped before they are added. -/
theorem wrap_add_wrap (m n : Nat) : wrap (m + wrap n) = wrap (m + n) := Nat.add_mod_mod m n _

/-- How a pool behaves; fixed once the pool is built. -/
structure Config where
  /-- Lower bound of the desired count. -/
  minCount : Nat := 0
  /-- The count that the keeper first converges to. -/
  desiredCount : Nat := 0
  /-- Upper bound of the resources that exist or are being created. -/
  maxCount : Nat := 10
  keeperEnabled : Bool := true
  keeperInterval : Duration := .ofSeconds 1
  /-- A failed keeper cycle ends the process. -/
  keeperFailureFatal : Bool := false
  careEnabled : Bool := false
  checkInterval : Duration := .ofSeconds 30
  /-- How long a pending health check may take to answer. -/
  checkTimeout : Duration := .ofSeconds 5
  /-- A failed health-care cycle ends the process, and the first check without a verdict ends the
  cycle. -/
  careFailureFatal : Bool := false
  /-- Check a resource right before it is handed out. -/
  checkOnAccess : Bool := false
  /-- Check a resource when it is released. -/
  checkOnRelease : Bool := false
  /-- Longest single sleep of a background job. -/
  waitIncrement : Duration := .ofMillis 100
  eviction : Eviction := .never
deriving DecidableEq, Inhabited

/-- Why a configuration cannot be used. -/
inductive ConfigFlaw
  | noCapacity
  | minAboveMax (min max : Nat)
  | desiredOutside (desired min max : Nat)
  | accessCheckWithoutCare
  | keeperIntervalZero
  | checkIntervalZero
  | checkTimeoutZero
  | waitIncrementZero
  | healthCheckMissing
deriving DecidableEq

/-- What a flaw tells the caller who wanted to build the pool. -/
def ConfigFlaw.message : ConfigFlaw → String
  | noCapacity => "max_count must be at least 1"
  | minAboveMax min max => s!"min_count ({min}) exceeds max_count ({max})"
  | desiredOutside desired min max =>
    s!"desired_count ({desired}) must lie within [{min}, {max}]"
  | accessCheckWithoutCare => "invalidate_resource_on_access requires the health-care job"
  | keeperIntervalZero => "count_keeper_interval must be non-zero"
  | checkIntervalZero => "health_check_interval must be non-zero"
  | checkTimeoutZero => "health_check_timeout must be non-zero"
  | waitIncrementZero => "wait_increment must be non-zero"
  | healthCheckMissing =>
    "the health-care job, invalidate_resource_on_access and validate_on_release need a health check"

namespace Config

/-- The smallest, the first and the largest number of live resources. -/
def withCounts (min desired max : Nat) (c : Config) : Config :=
  { c with minCount := min, desiredCount := desired, maxCount := max }

/-- The largest number of live resources alone. -/
def withMaxCount (max : Nat) (c : Config) : Config := { c with maxCount := max }

/-- Run the keeper at the given interval. -/
def withKeeperInterval (interval : Duration) (c : Config) : Config :=
  { c with keeperEnabled := true, keeperInterval := interval }

/-- Leave all growth to acquisitions. -/
def withoutKeeper (c : Config) : Config := { c with keeperEnabled := false }

/-- Whether the count keeper ends with its first failed cycle. -/
def withKeeperFailureFatal (fatal : Bool) (c : Config) : Config :=
  { c with keeperFailureFatal := fatal }

/-- Run the health-care job at the given interval. -/
def withCheckInterval (interval : Duration) (c : Config) : Config :=
  { c with careEnabled := true, checkInterval := interval }

/-- How long a check on a worker is waited for. -/
def withCheckTimeout (timeout : Duration) (c : Config) : Config :=
  { c with checkTimeout := timeout }

/-- Whether the health-care job ends with its first failed cycle. -/
def withCareFailureFatal (fatal : Bool) (c : Config) : Config :=
  { c with careFailureFatal := fatal }

/-- Whether a resource is checked before it is handed out. -/
def withCheckOnAccess (enabled : Bool) (c : Config) : Config := { c with checkOnAccess := enabled }

/-- Whether a resource is checked when its last handle goes. -/
def withCheckOnRelease (enabled : Bool) (c : Config) : Config :=
  { c with checkOnRelease := enabled }

/-- The longest sleep of a waiting job at a time. -/
def withWaitIncrement (increment : Duration) (c : Config) : Config :=
  { c with waitIncrement := increment }

/-- The eviction policy with this limit on the age of a resource. -/
def withTtl (ttl : Duration) (c : Config) : Config := { c with eviction := c.eviction.withTtl ttl }

/-- The eviction policy with this limit on the time without use. -/
def withIdleTimeout (timeout : Duration) (c : Config) : Config :=
  { c with eviction := c.eviction.withIdleTimeout timeout }

/-- The conditions that a configuration must not meet, in the order in which they are tried. -/
def flaws (c : Config) : List (Bool × ConfigFlaw) :=
  [(c.maxCount == 0, .noCapacity),
   (c.maxCount < c.minCount, .minAboveMax c.minCount c.maxCount),
   (c.desiredCount < c.minCount || c.maxCount < c.desiredCount,
      .desiredOutside c.desiredCount c.minCount c.maxCount),
   (c.checkOnAccess && !c.careEnabled, .accessCheckWithoutCare),
   (c.keeperEnabled && c.keeperInterval.isZero, .keeperIntervalZero),
   (c.careEnabled && c.checkInterval.isZero, .checkIntervalZero),
   (c.checkTimeout.isZero, .checkTimeoutZero),
   (c.waitIncrement.isZero, .waitIncrementZero)]

/-- Report the first flaw of a configuration. -/
def validate (c : Config) : Except ConfigFlaw Unit :=
  match c.flaws.find? (·.1) with
  | some (_, flaw) => .error flaw
  | none => .ok ()

/-- Whether some configured path runs a health check. -/
def needsHealthCheck (c : Config) : Bool := c.careEnabled || c.checkOnAccess || c.checkOnRelease

/-- Report the first flaw of a configuration for a pool with or without a health check. -/
def admit? (c : Config) (hasHealthCheck : Bool) : Except ConfigFlaw Unit := do
  c.validate
  if c.needsHealthCheck && !hasHealthCheck then throw .healthCheckMissing

/-- An accepted configuration bounds its counts by its maximum, and its maximum is not zero. -/
theorem counts_of_validate {c : Config} (h : c.validate = .ok ()) :
    0 < c.maxCount ∧ c.minCount ≤ c.desiredCount ∧ c.desiredCount ≤ c.maxCount := by
  unfold validate at h
  split at h
  · cases h
  · rename_i hn
    simp only [flaws, List.find?_eq_none, List.mem_cons, List.not_mem_nil, or_false,
      forall_eq_or_imp, forall_eq, Bool.not_eq_true, beq_eq_false_iff_ne, decide_eq_false_iff_not,
      Bool.or_eq_false_iff] at hn
    omega

end Config

end LeasePool
