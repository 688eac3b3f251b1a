/-!
# Counters

A pool counts ten kinds of happenings in 64-bit words, which wrap around.
-/

namespace LeasePool

/-- What a pool counts. -/
inductive Counter
  | created
  | destroyed
  | acquired
  | released
  | exhausted
  | creationFailures
  | healthChecks
  | healthCheckFailures
  | healthCheckErrors
  | evictions
deriving DecidableEq

/-- The counters in the order in which reports list them. -/
def Counter.all : List Counter :=
  [created, destroyed, acquired, released, exhausted, creationFailures, healthChecks,
    healthCheckFailures, healthCheckErrors, evictions]

/-- The name of a counter in reports. -/
def Counter.name : Counter → String
  | created => "total_created"
  | destroyed => "total_destroyed"
  | acquired => "total_acquired"
  | released => "total_released"
  | exhausted => "exhausted_events"
  | creationFailures => "creation_failures"
  | healthChecks => "health_checks"
  | healthCheckFailures => "health_check_failures"
  | healthCheckErrors => "health_check_errors"
  | evictions => "evictions"

/-- The values of all counters. -/
structure Tally where
  created : UInt64 := 0
  destroyed : UInt64 := 0
  acquired : UInt64 := 0
  released : UInt64 := 0
  exhausted : UInt64 := 0
  creationFailures : UInt64 := 0
  healthChecks : UInt64 := 0
  healthCheckFailures : UInt64 := 0
  healthCheckErrors : UInt64 := 0
  evictions : UInt64 := 0
deriving DecidableEq, Inhabited

namespace Tally

/-- The value of one counter. -/
def get (t : Tally) : Counter → UInt64
  | .created => t.created
  | .destroyed => t.destroyed
  | .acquired => t.acquired
  | .released => t.released
  | .exhausted => t.exhausted
  | .creationFailures => t.creationFailures
  | .healthChecks => t.healthChecks
  | .healthCheckFailures => t.healthCheckFailures
  | .healthCheckErrors => t.healthCheckErrors
  | .evictions => t.evictions

/-- Add to one counter, modulo `2 ^ 64`. -/
def add (c : Counter) (amount : UInt64) (t : Tally) : Tally :=
  match c with
  | .created => { t with created := t.created + amount }
  | .destroyed => { t with destroyed := t.destroyed + amount }
  | .acquired => { t with acquired := t.acquired + amount }
  | .released => { t with released := t.released + amount }
  | .exhausted => { t with exhausted := t.exhausted + amount }
  | .creationFailures => { t with creationFailures := t.creationFailures + amount }
  | .healthChecks => { t with healthChecks := t.healthChecks + amount }
  | .healthCheckFailures => { t with healthCheckFailures := t.healthCheckFailures + amount }
  | .healthCheckErrors => { t with healthCheckErrors := t.healthCheckErrors + amount }
  | .evictions => { t with evictions := t.evictions + amount }

/-- Add one to a counter. -/
def bump (c : Counter) (t : Tally) : Tally := t.add c 1

/-- Adding to a counter keeps the others. -/
@[simp] theorem get_add_of_ne (t : Tally) {c d : Counter} (n : UInt64) (h : d ≠ c) :
    (t.add c n).get d = t.get d := by
  cases c <;> cases d <;> first | rfl | exact absurd rfl h

end Tally

end LeasePool
