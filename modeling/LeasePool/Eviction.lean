import LeasePool.Duration

/-!
# Eviction of aged idle resources

A policy limits the age of a resource, the time it has sat unused, both, or neither. A limit is
exceeded only by a strictly longer time, and a clock that reads earlier than a past instant counts
as no time at all.
-/

namespace LeasePool

/-- Nanoseconds since the origin of a clock. -/
abbrev Instant := Nat

/-- The time from `since` to `now`, nothing if `now` comes first. -/
def Instant.elapsed (since now : Instant) : Duration := ⟨now - since⟩

/-- Which limits apply to an idle resource. -/
inductive Eviction
  | never
  | timeToLive (ttl : Duration)
  | idleTimeout (timeout : Duration)
  | either (ttl timeout : Duration)
deriving DecidableEq, Inhabited

namespace Eviction

/-- The limit on the age of a resource, if there is one. -/
def ttl? : Eviction → Option Duration
  | never | idleTimeout _ => none
  | timeToLive ttl | either ttl _ => some ttl

/-- The limit on the unused time of a resource, if there is one. -/
def timeout? : Eviction → Option Duration
  | never | timeToLive _ => none
  | idleTimeout timeout | either _ timeout => some timeout

/-- The policy with the given limits. -/
def ofLimits : Option Duration → Option Duration → Eviction
  | none, none => never
  | some ttl, none => timeToLive ttl
  | none, some timeout => idleTimeout timeout
  | some ttl, some timeout => either ttl timeout

/-- Limit the age, keeping any limit on the unused time. -/
def withTtl (ttl : Duration) : Eviction → Eviction
  | idleTimeout timeout | either _ timeout => either ttl timeout
  | never | timeToLive _ => timeToLive ttl

/-- Limit the unused time, keeping any limit on the age. -/
def withIdleTimeout (timeout : Duration) : Eviction → Eviction
  | timeToLive ttl | either ttl _ => either ttl timeout
  | never | idleTimeout _ => idleTimeout timeout

/-- Whether a policy ever asks for an eviction. -/
def isEnabled : Eviction → Bool
  | never => false
  | _ => true

/-- Whether a resource created and last released at the given instants has expired by `now`. -/
def expired (policy : Eviction) (createdAt lastUsed now : Instant) : Bool :=
  let age := createdAt.elapsed now
  let unused := lastUsed.elapsed now
  match policy with
  | never => false
  | timeToLive ttl => ttl.nanos < age.nanos
  | idleTimeout timeout => timeout.nanos < unused.nanos
  | either ttl timeout => ttl.nanos < age.nanos || timeout.nanos < unused.nanos

/-- A policy is made of its two limits and nothing else. -/
theorem ofLimits_ttl?_timeout? (p : Eviction) : ofLimits p.ttl? p.timeout? = p := by
  cases p <;> rfl

/-- Setting the limit on the age sets it. -/
@[simp] theorem ttl?_withTtl (p : Eviction) (ttl : Duration) : (p.withTtl ttl).ttl? = some ttl := by
  cases p <;> rfl

/-- Setting the limit on the age keeps the other one. -/
@[simp] theorem timeout?_withTtl (p : Eviction) (ttl : Duration) :
    (p.withTtl ttl).timeout? = p.timeout? := by
  cases p <;> rfl

/-- Setting the limit on the time without use keeps the other one. -/
@[simp] theorem ttl?_withIdleTimeout (p : Eviction) (timeout : Duration) :
    (p.withIdleTimeout timeout).ttl? = p.ttl? := by
  cases p <;> rfl

/-- Setting the limit on the time without use sets it. -/
@[simp] theorem timeout?_withIdleTimeout (p : Eviction) (timeout : Duration) :
    (p.withIdleTimeout timeout).timeout? = some timeout := by
  cases p <;> rfl

end Eviction

end LeasePool
