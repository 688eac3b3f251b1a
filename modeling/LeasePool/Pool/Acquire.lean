import LeasePool.Pool.Creation

/-!
# Acquiring resources

An acquisition hands out the first idle resource of the table, and creates one if none is idle. A
pool that checks resources on access hands out only those that pass, and destroys the others. So an
acquisition tries in rounds, until a resource passes or none can be supplied.
-/

namespace LeasePool.PoolM

/-- Claim the first idle slot. -/
def claim : PoolM (Option (Nat × Nat)) := update fun p =>
  match p.table.claimIdle with
  | some (s, table) =>
    (some (s.id, s.resource), { p with table }.hold (.slot .claim s.id s.resource))
  | none => (none, p)

/-- Mark a claimed slot as healthy at this moment. -/
def confirm (id : Nat) : PoolM Unit := do
  let time ← now
  change fun p =>
    (p.onTable (·.modify id fun s => { s with lastCheck := some time })).note (.confirmed id)

/-- Check the resource of a claimed slot. The slot is destroyed unless the resource is healthy. -/
def verify (nested : Op → PoolM Reply) (id resource : Nat) : PoolM Bool := do
  match Verdict.objection? (← probe nested resource .access) with
  | none =>
    confirm id
    pure true
  | some reason =>
    emit (.healthCheckFailed id reason)
    let removed ← takeOutBroken .claim id resource .unhealthy
    destroy nested .unhealthy removed
    pure false

/-- Whether a claimed slot may be handed out. -/
def passes (nested : Op → PoolM Reply) (id resource : Nat) : PoolM Bool := do
  if ← read (·.config.checkOnAccess) then verify nested id resource else pure true

/-- Count a claimed slot as acquired. -/
def countAcquired (id resource : Nat) : PoolM Unit := do
  bump .acquired
  change (·.exchange (.slot .claim id resource) (.slot .handOver id resource))

/-- Begin the lease of a slot that counts as acquired. The operation holds its first handle. -/
def beginLease (id resource : Nat) : PoolM Lease := update fun p =>
  let lease : Lease := { id := p.nextLease, slot := id, resource }
  (lease,
    { p.exchange (.slot .handOver id resource) (.handle lease.id) with
      leases := lease :: p.leases
      nextLease := p.nextLease + 1 }.note (.handedOut id resource))

/-- Lease a claimed slot. -/
def handOut (nested : Op → PoolM Reply) (id resource : Nat) : PoolM Lease := do
  countAcquired id resource
  callHook nested .acquired
  beginLease id resource

/-- Refuse an acquisition. -/
def refuse (nested : Op → PoolM Reply) : PoolM PoolError := do
  let inUse ← read (·.table.count .inUse)
  let max ← read (·.config.maxCount)
  bump .exhausted
  emit (.poolExhausted inUse max)
  callHook nested .exhausted
  pure (.exhausted inUse max)

/-- The rounds of an acquisition, with the number of new resources that have not passed so far. -/
def acquireRounds (nested : Op → PoolM Reply) : Nat → Nat → PoolM (Except PoolError Lease)
  | 0, _ => exceed
  | rounds + 1, rejected => do
    match ← claim with
    | some (id, resource) =>
      if ← passes nested id resource then
        let lease ← handOut nested id resource
        pure (.ok lease)
      else
        letGo nested (.reference resource)
        acquireRounds nested rounds rejected
    | none =>
      if (← reserve .acquire 1) = 1 then
        match ← createResource nested .inUse .acquire with
        | .ok (some (id, resource)) =>
          if ← passes nested id resource then
            let lease ← handOut nested id resource
            pure (.ok lease)
          else if (← read (·.config.maxCount)) ≤ rejected + 1 then
            let error ← refuse nested
            letGo nested (.reference resource)
            pure (.error error)
          else
            letGo nested (.reference resource)
            acquireRounds nested rounds (rejected + 1)
        | .ok none => pure (.error .closed)
        | .error _ =>
          let error ← refuse nested
          pure (.error error)
      else
        let error ← refuse nested
        pure (.error error)

/-- Acquire a resource in at most the given number of rounds. -/
def acquire (nested : Op → PoolM Reply) (rounds : Nat) : PoolM (Except PoolError Lease) := do
  if ← read (·.closed) then pure (.error .closed) else acquireRounds nested rounds 0

end LeasePool.PoolM
