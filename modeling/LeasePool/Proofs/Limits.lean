import LeasePool.Config

/-!
# Limits given one after another

A policy is built by giving it limits, on the policy itself or through a configuration. The two
kinds of limits do not meet: of each kind the last limit given counts, or the one that was there
before if none is given. A resource expires under a policy if it expires under one of its limits
alone, and it stays expired as time goes on and as limits get shorter.
-/

namespace LeasePool

/-- A limit for idle resources. -/
inductive Limit
  | ttl (limit : Duration)
  | idleTimeout (limit : Duration)
deriving DecidableEq

namespace Limit

/-- The age that a limit allows, if it limits the age. -/
def ttl? : Limit → Option Duration
  | ttl limit => some limit
  | idleTimeout _ => none

/-- The time without use that a limit allows, if it limits that. -/
def idleTimeout? : Limit → Option Duration
  | ttl _ => none
  | idleTimeout limit => some limit

/-- The last limit on the age among those given. -/
def lastTtl? (given : List Limit) : Option Duration := (given.filterMap ttl?).getLast?

/-- The last limit on the unused time among those given. -/
def lastIdleTimeout? (given : List Limit) : Option Duration :=
  (given.filterMap idleTimeout?).getLast?

/-- Swapping limits of different kinds changes the last of neither kind. -/
theorem last_swap (before after : List Limit) (ttl timeout : Duration) :
    lastTtl? (before ++ .ttl ttl :: .idleTimeout timeout :: after) =
        lastTtl? (before ++ .idleTimeout timeout :: .ttl ttl :: after) ∧
      lastIdleTimeout? (before ++ .ttl ttl :: .idleTimeout timeout :: after) =
        lastIdleTimeout? (before ++ .idleTimeout timeout :: .ttl ttl :: after) := by
  constructor
  · apply congrArg List.getLast?
    simp [List.filterMap_cons, ttl?]
  · apply congrArg List.getLast?
    simp [List.filterMap_cons, idleTimeout?]

end Limit

namespace Eviction

open Limit (lastTtl? lastIdleTimeout?)

variable {p q : Eviction} {createdAt lastUsed now : Instant}

/-- Give a policy a limit. -/
def limit (p : Eviction) : Limit → Eviction
  | .ttl limit => p.withTtl limit
  | .idleTimeout limit => p.withIdleTimeout limit

/-- Give a policy limits, one after another. -/
def limits (p : Eviction) (given : List Limit) : Eviction := given.foldl limit p

/-- A policy is known by its limits. -/
theorem ext_limits (ht : p.ttl? = q.ttl?) (hi : p.timeout? = q.timeout?) : p = q := by
  rw [← ofLimits_ttl?_timeout? p, ← ofLimits_ttl?_timeout? q, ht, hi]

/-- A policy made of two limits has the one on the age. -/
@[simp] theorem ttl?_ofLimits (ttl timeout : Option Duration) :
    (ofLimits ttl timeout).ttl? = ttl := by
  cases ttl <;> cases timeout <;> rfl

/-- A policy made of two limits has the one on the time without use. -/
@[simp] theorem timeout?_ofLimits (ttl timeout : Option Duration) :
    (ofLimits ttl timeout).timeout? = timeout := by
  cases ttl <;> cases timeout <;> rfl

/-- A limit on the age replaces the one that was there. -/
theorem ttl?_limit (p : Eviction) (l : Limit) : (p.limit l).ttl? = l.ttl?.or p.ttl? := by
  cases l with
  | ttl d => exact p.ttl?_withTtl d
  | idleTimeout d => exact p.ttl?_withIdleTimeout d

/-- A limit on the unused time replaces the one that was there. -/
theorem timeout?_limit (p : Eviction) (l : Limit) :
    (p.limit l).timeout? = l.idleTimeout?.or p.timeout? := by
  cases l with
  | ttl d => exact p.timeout?_withTtl d
  | idleTimeout d => exact p.timeout?_withIdleTimeout d

/-- If each limit of a kind replaces the one that was there, and no other limit does, then the last
one of the kind counts. -/
theorem last_limit {read : Eviction → Option Duration} {kind : Limit → Option Duration}
    (h : ∀ p l, read (p.limit l) = (kind l).or (read p)) (p : Eviction) (given : List Limit) :
    read (p.limits given) = (given.filterMap kind).getLast?.or (read p) := by
  induction given generalizing p with
  | nil => rfl
  | cons l given ih =>
    have hrest : read (p.limits (l :: given)) =
        (given.filterMap kind).getLast?.or (read (p.limit l)) := ih (p.limit l)
    rw [hrest, h, List.filterMap_cons]
    cases kind l with
    | none => rfl
    | some d => simp [List.getLast?_cons, Option.or_some]

/-- The limit on the age is the last one given, or the one that was there. -/
theorem ttl?_limits (p : Eviction) (given : List Limit) :
    (p.limits given).ttl? = (lastTtl? given).or p.ttl? :=
  last_limit ttl?_limit p given

/-- The limit on the unused time is the last one given, or the one that was there. -/
theorem timeout?_limits (p : Eviction) (given : List Limit) :
    (p.limits given).timeout? = (lastIdleTimeout? given).or p.timeout? :=
  last_limit timeout?_limit p given

/-- A resource has expired if it is older than one limit, or unused for longer than the other. -/
theorem expired_iff : p.expired createdAt lastUsed now = true ↔
    (∃ d ∈ p.ttl?, d.nanos < (createdAt.elapsed now).nanos) ∨
      ∃ d ∈ p.timeout?, d.nanos < (lastUsed.elapsed now).nanos := by
  cases p <;> simp [expired, ttl?, timeout?]

/-- A policy whose limits are those of another one or shorter, and that may have more of them. -/
structure IsStricter (q p : Eviction) : Prop where
  ttl : ∀ d ∈ p.ttl?, ∃ d' ∈ q.ttl?, d'.nanos ≤ d.nanos
  timeout : ∀ d ∈ p.timeout?, ∃ d' ∈ q.timeout?, d'.nanos ≤ d.nanos

/-- Time only goes on. -/
theorem elapsed_mono {later : Instant} (since : Instant) (h : now ≤ later) :
    (since.elapsed now).nanos ≤ (since.elapsed later).nanos :=
  Nat.sub_le_sub_right h since

/-- What has expired stays expired later, and under shorter limits. -/
theorem expired_mono {later : Instant} (hq : q.IsStricter p) (hl : now ≤ later)
    (h : p.expired createdAt lastUsed now = true) : q.expired createdAt lastUsed later = true := by
  rw [expired_iff] at h ⊢
  rcases h with ⟨d, hd, hlt⟩ | ⟨d, hd, hlt⟩
  · obtain ⟨d', hd', hle⟩ := hq.ttl d hd
    have := elapsed_mono createdAt hl
    exact .inl ⟨d', hd', by omega⟩
  · obtain ⟨d', hd', hle⟩ := hq.timeout d hd
    have := elapsed_mono lastUsed hl
    exact .inr ⟨d', hd', by omega⟩

/-- A policy is as strict as itself. -/
theorem IsStricter.refl (p : Eviction) : p.IsStricter p where
  ttl d hd := ⟨d, hd, Nat.le_refl _⟩
  timeout d hd := ⟨d, hd, Nat.le_refl _⟩

/-- When resources expire under a policy, in terms of its two limits. -/
structure SplitsExpiry (p : Eviction) : Prop where
  expired : ∀ createdAt lastUsed now, p.expired createdAt lastUsed now =
    ((ofLimits p.ttl? none).expired createdAt lastUsed now ||
      (ofLimits none p.timeout?).expired createdAt lastUsed now)
  ttl_reached : ∀ createdAt lastUsed now, createdAt.elapsed now ∈ p.ttl? →
    (ofLimits p.ttl? none).expired createdAt lastUsed now = false
  timeout_reached : ∀ createdAt lastUsed now, lastUsed.elapsed now ∈ p.timeout? →
    (ofLimits none p.timeout?).expired createdAt lastUsed now = false
  later : ∀ createdAt lastUsed now later, now ≤ later →
    p.expired createdAt lastUsed now = true → p.expired createdAt lastUsed later = true
  shorter : ∀ q : Eviction, q.IsStricter p → ∀ createdAt lastUsed now,
    p.expired createdAt lastUsed now = true → q.expired createdAt lastUsed now = true

/-- A slot expires by one of the limits. -/
theorem splitsExpiry (p : Eviction) : p.SplitsExpiry where
  expired createdAt lastUsed now := by
    rw [Bool.eq_iff_iff, Bool.or_eq_true, expired_iff, expired_iff, expired_iff]
    simp
  ttl_reached createdAt lastUsed now h := by
    rw [Bool.eq_false_iff, Ne, expired_iff]
    simp only [ttl?_ofLimits, timeout?_ofLimits]
    rintro (⟨d, hd, hlt⟩ | ⟨d, hd, -⟩)
    · rw [Option.mem_unique hd h] at hlt
      exact Nat.lt_irrefl _ hlt
    · cases hd
  timeout_reached createdAt lastUsed now h := by
    rw [Bool.eq_false_iff, Ne, expired_iff]
    simp only [ttl?_ofLimits, timeout?_ofLimits]
    rintro (⟨d, hd, -⟩ | ⟨d, hd, hlt⟩)
    · cases hd
    · rw [Option.mem_unique hd h] at hlt
      exact Nat.lt_irrefl _ hlt
  later createdAt lastUsed now later hl h := expired_mono (.refl p) hl h
  shorter q hq createdAt lastUsed now h := expired_mono hq (Nat.le_refl _) h

/-- What becomes of a policy to which limits are given one after another. -/
structure Composes (start : Eviction) (given : List Limit) (p : Eviction) : Prop where
  limits : p =
    ofLimits ((lastTtl? given).or start.ttl?) ((lastIdleTimeout? given).or start.timeout?)
  lastCounts : ∀ others, lastTtl? others = lastTtl? given →
    lastIdleTimeout? others = lastIdleTimeout? given → start.limits others = p
  commutes : ∀ before after ttl timeout,
    given = before ++ .ttl ttl :: .idleTimeout timeout :: after →
      start.limits (before ++ .idleTimeout timeout :: .ttl ttl :: after) = p
  splits : p.SplitsExpiry

/-- Policies that are given the same last limits are the same. -/
theorem limits_congr {given others : List Limit} (p : Eviction)
    (ht : lastTtl? others = lastTtl? given)
    (hi : lastIdleTimeout? others = lastIdleTimeout? given) : p.limits others = p.limits given := by
  apply ext_limits
  · rw [ttl?_limits, ttl?_limits, ht]
  · rw [timeout?_limits, timeout?_limits, hi]

/-- Limits that are set one after another compose. -/
theorem composes_limits (start : Eviction) (given : List Limit) :
    Composes start given (start.limits given) where
  limits := by
    rw [← ttl?_limits, ← timeout?_limits, ofLimits_ttl?_timeout?]
  lastCounts others ht hi := limits_congr start ht hi
  commutes before after ttl timeout hg := by
    obtain ⟨ht, hi⟩ := Limit.last_swap before after ttl timeout
    rw [hg]
    exact limits_congr start ht.symm hi.symm
  splits := splitsExpiry _

end Eviction

namespace Config

/-- Give the policy of a configuration a limit. -/
def limit (c : Config) : Limit → Config
  | .ttl limit => c.withTtl limit
  | .idleTimeout limit => c.withIdleTimeout limit

/-- Give the policy of a configuration limits, one after another. -/
def limits (c : Config) (given : List Limit) : Config := given.foldl limit c

/-- A configuration gives the limits to its policy, and nothing else of it changes. -/
theorem limits_eq (c : Config) (given : List Limit) :
    c.limits given = { c with eviction := c.eviction.limits given } := by
  induction given generalizing c with
  | nil => rfl
  | cons l given ih =>
    have hrest : c.limits (l :: given) = (c.limit l).limits given := rfl
    rw [hrest, ih]
    cases l <;> rfl

end Config

/-- Limits may be given to a policy in any order and any number, on the policy or through a
configuration: the last one of each kind counts, and a resource expires if one of them is exceeded.
-/
theorem Eviction.limits_compose (start : Eviction) (given : List Limit) :
    Composes start given (start.limits given) ∧
      ∀ c : Config, c.limits given = { c with eviction := c.eviction.limits given } ∧
        Composes c.eviction given (c.limits given).eviction := by
  refine ⟨composes_limits start given, fun c => ?_⟩
  have hc := c.limits_eq given
  rw [hc]
  exact ⟨rfl, composes_limits c.eviction given⟩

end LeasePool
