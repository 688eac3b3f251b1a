import LeasePool.Pool.Callback

/-!
# Releasing resources

Handles to one lease share it. A lease that loses its last handle ends: its slot becomes idle again,
unless the lease was invalidated or a check on release objects, when its resource is destroyed.
-/

namespace LeasePool.PoolM

/-- Why the resource of a lease is not kept, or nothing if it is. -/
def objection (nested : Op → PoolM Reply) (lease : Lease) : PoolM (Option DestroyReason) := do
  if lease.invalidated then pure (some .invalidated)
  else if ← read fun p => p.config.checkOnRelease && !p.closed then
    match Verdict.objection? (← probe nested lease.resource .release) with
    | none => pure none
    | some reason =>
      emit (.healthCheckFailed lease.slot reason)
      pure (some .unhealthy)
  else pure none

/-- Count a lease that ended. -/
def countReturn (lease : Lease) : PoolM Unit := do
  bump .released
  change (·.note (.returned lease.slot lease.resource lease.invalidated))

/-- Make the slot of an ended lease idle, if it is still in the table. -/
def giveBack (lease : Lease) : PoolM Unit := do
  let time ← now
  change fun p =>
    ((p.note (.freeing lease.slot lease.resource)).onTable
      (·.modify lease.slot fun s => { s with state := .idle, lastUsed := time })).disown
        .release lease.slot lease.resource
  countReturn lease

/-- Take the slot of an ended lease out of the table, if it is still there. -/
def giveUp (lease : Lease) (reason : DestroyReason) : PoolM (List (Slot Nat)) := do
  let removed ← takeOutBroken .release lease.slot lease.resource reason
  countReturn lease
  pure removed

/-- Give the slot of an ended lease back. It may have left the table already. -/
def release (nested : Op → PoolM Reply) (lease : Lease) : PoolM Unit := do
  match ← objection nested lease with
  | some reason =>
    let removed ← giveUp lease reason
    destroy nested reason removed
  | none => giveBack lease
  callHook nested .released

/-- Let go of a handle. Its lease ends if it has no other one, and the running operation then owns
the slot of the lease. -/
def endLease (id : Nat) : PoolM (Option Lease) := update fun p =>
  let p := p.unhold (.handle id)
  if p.handles.any (·.2 == id) || p.holdings.contains (.handle id) then (none, p)
  else match p.leases.find? (·.id == id) with
  | some lease =>
    (some lease,
      { p with leases := p.leases.erase lease }.hold (.slot .release lease.slot lease.resource))
  | none => (none, p)

/-- Let go of a handle, and release its lease if that was the last one. -/
def releaseUnheld (nested : Op → PoolM Reply) (id : Nat) : PoolM Unit := do
  match ← endLease id with
  | some lease =>
    release nested lease
    letGo nested (.reference lease.resource)
  | none => pure ()

/-- Name a handle of the running operation. The operation holds the one that had the name before. -/
def nameHandle (handle : String) (lease : Nat) : PoolM (Option Nat) := update fun p =>
  let old := p.handles.lookup handle
  (old,
    { p with
      handles := (handle, lease) :: p.handles.filter (·.1 != handle)
      holdings := old.toList.map .handle ++ p.holdings.erase (.handle lease) })

/-- Take the name off a handle, if there is one of that name. The running operation holds it. -/
def unnameHandle (handle : String) : PoolM (Option Nat) := update fun p =>
  let old := p.handles.lookup handle
  (old,
    { p with
      handles := p.handles.filter (·.1 != handle)
      holdings := old.toList.map .handle ++ p.holdings })

/-- Store a handle to a lease under a name. The handle that had the name before is dropped. -/
def storeHandle (nested : Op → PoolM Reply) (handle : String) (lease : Nat) : PoolM Unit := do
  match ← nameHandle handle lease with
  | some id => releaseUnheld nested id
  | none => pure ()

/-- Drop a handle, if there is one of that name. -/
def dropHandle (nested : Op → PoolM Reply) (handle : String) : PoolM Bool := do
  match ← unnameHandle handle with
  | some id =>
    releaseUnheld nested id
    pure true
  | none => pure false

end LeasePool.PoolM
