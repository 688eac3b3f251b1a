import LeasePool.Trace

/-!
# Pool events

A pool reports the creation and destruction of its resources, failed factory calls, failed health
checks, failed job cycles and refused acquisitions. Each event also has a trace record.
-/

namespace LeasePool

/-- Which part of a pool asked the factory for a resource. -/
inductive Origin
  | acquire
  | countKeeper
  | healthCareJob
deriving DecidableEq

/-- The name of an origin in a report. -/
def Origin.name : Origin → String
  | acquire => "Acquire"
  | countKeeper => "CountKeeper"
  | healthCareJob => "HealthCareJob"

/-- Why a resource left a pool. -/
inductive DestroyReason
  /-- The keeper removed it as surplus. -/
  | surplus
  /-- A health check did not find it healthy. -/
  | unhealthy
  /-- Its holder invalidated it. -/
  | invalidated
  /-- The eviction policy expired it. -/
  | expired
  | shutdown
deriving DecidableEq

/-- The name of a reason in a report. -/
def DestroyReason.name : DestroyReason → String
  | surplus => "surplus"
  | unhealthy => "unhealthy"
  | invalidated => "invalidated"
  | expired => "expired"
  | shutdown => "shutdown"

/-- What the pool tells the listener of its events. -/
inductive Event
  | resourceCreated (slot : Nat) (origin : Origin)
  | resourceDestroyed (slot : Nat) (reason : DestroyReason)
  | resourceCreationFailed (origin : Origin) (error : String)
  | healthCheckFailed (slot : Nat) (reason : String)
  | countKeeperFailure (error : String)
  | healthCareJobFailure (error : String)
  | poolExhausted (inUse max : Nat)
deriving DecidableEq

namespace Event

/-- The name of the kind of an event. -/
def kind : Event → String
  | resourceCreated .. => "resource_created"
  | resourceDestroyed .. => "resource_destroyed"
  | resourceCreationFailed .. => "resource_creation_failed"
  | healthCheckFailed .. => "health_check_failed"
  | countKeeperFailure .. => "count_keeper_failure"
  | healthCareJobFailure .. => "health_care_job_failure"
  | poolExhausted .. => "pool_exhausted"

/-- The trace record of an event of the named pool. -/
def traced (pool : String) : Event → TraceRecord
  | resourceCreated slot origin =>
    ⟨.debug, "resource created",
      [("pool", .text pool), ("slot", .count slot), ("origin", .text origin.name)]⟩
  | resourceDestroyed slot reason =>
    ⟨.debug, "resource destroyed",
      [("pool", .text pool), ("slot", .count slot), ("reason", .text reason.name)]⟩
  | resourceCreationFailed origin error =>
    ⟨.warn, "resource creation failed",
      [("pool", .text pool), ("origin", .text origin.name), ("error", .text error)]⟩
  | healthCheckFailed slot reason =>
    ⟨.warn, "health check failed",
      [("pool", .text pool), ("slot", .count slot), ("reason", .text reason)]⟩
  | countKeeperFailure error =>
    ⟨.error, "count keeper cycle failed", [("pool", .text pool), ("error", .text error)]⟩
  | healthCareJobFailure error =>
    ⟨.error, "health-care job cycle failed", [("pool", .text pool), ("error", .text error)]⟩
  | poolExhausted inUse max =>
    ⟨.warn, "pool exhausted",
      [("pool", .text pool), ("in_use", .count inUse), ("max", .count max)]⟩

end Event

end LeasePool
