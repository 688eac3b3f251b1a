import LeasePool.Pool.Acquire
import LeasePool.Pool.Release
import LeasePool.Pool.Keeper
import LeasePool.Pool.Care

/-!
# Running operations

An operation runs on a pool and answers. Operations that user code runs inside it run the same way,
with a smaller budget, which also bounds the rounds of an acquisition. A panic that reaches the end
of an operation is its answer.
-/

namespace LeasePool

namespace PoolM

/-- Run an action on the lease of a handle. -/
def withLease (handle : String) (f : Lease → PoolM Reply) : PoolM Reply := do
  match ← read (·.lease? handle) with
  | some lease => f lease
  | none => pure .noHandle

/-- Mark a lease as broken. -/
def invalidateLease (id : Nat) : PoolM Unit := change fun p =>
  { p with leases := p.leases.map fun l => if l.id = id then { l with invalidated := true } else l }

/-- Create a resource with a reservation of a caller. -/
def createReserved (nested : Op → PoolM Reply) (state : SlotState) (origin : Origin) :
    PoolM Reply := do
  change fun p => { p with reserved := p.reserved - 1 }.hold .reservation
  match ← createResource nested state origin with
  | .ok (some (id, resource)) =>
    if state = .inUse then letGo nested (.slot .claim id resource)
    pure (.leased id resource)
  | .ok none => pure .discarded
  | .error error => pure (.notCreated error)

/-- Store the handle that an acquisition gave. -/
def keepHandle (nested : Op → PoolM Reply) (handle : String) : Except PoolError Lease → PoolM Reply
  | .ok lease => do
    storeHandle nested handle lease.id
    pure (.leased lease.slot lease.resource)
  | .error error => pure (.refused error)

/-- Do what an operation asks for. -/
def perform (nested : Op → PoolM Reply) (rounds : Nat) : Op → PoolM Reply
  | .acquire handle => do keepHandle nested handle (← PoolM.acquire nested rounds)
  | .acquireOnThread handle => do
    let result ← elsewhere (attempt nested (PoolM.acquire nested rounds))
    keepHandle nested handle (← ofExcept result)
  | .share handle copy => withLease handle fun lease => do
    hold (.handle lease.id)
    storeHandle nested copy lease.id
    pure .nothing
  | .drop handle => do
    if ← dropHandle nested handle then pure .nothing else pure .noHandle
  | .dropOnThread handle => do
    match ← elsewhere (attempt nested (dropHandle nested handle)) with
    | .ok true => pure (.flag true)
    | .ok false => pure .noHandle
    | .error _ => pure (.flag false)
  | .invalidate handle => withLease handle fun lease => do
    invalidateLease lease.id
    pure .nothing
  | .inspect handle => withLease handle fun lease =>
    pure (.handle lease.slot lease.resource lease.invalidated)
  | .keeper => .keeper <$> keeperCycle nested
  | .care => .care <$> careCycle nested
  | .stopKeeper => do
    change fun p => { p with keeperSignal := p.keeperSignal.stop }
    pure .nothing
  | .stopCare => do
    change fun p => { p with careSignal := p.careSignal.stop }
    pure .nothing
  | .awaitKeeper => do
    let signal ← read (·.keeperSignal)
    let (wake, signal) ← ofExcept (signal.waitAlone ⟨0⟩)
    change fun p => { p with keeperSignal := signal }
    pure (.woken wake)
  | .close => do
    change fun p => { p with closed := true }
    pure .nothing
  | .drain => do
    PoolM.drain nested
    pure .nothing
  | .isClosed => read fun p => .flag p.closed
  | .status => read fun p => .status p.status
  | .metrics => read fun p => .metrics p.snapshot
  | .exported => read fun p => .exported p.snapshot.exported
  | .desired => read fun p => .count p.desired
  | .setDesired count => .count <$> PoolM.setDesired count
  | .probe handle => withLease handle fun lease => do
    hold (.reference lease.resource)
    let result ← PoolM.probe nested lease.resource .caller
    letGo nested (.reference lease.resource)
    pure (.checked result)
  | .slot id => read fun p => .slot (p.table.find? id)
  | .setState id state => update fun p =>
    (.flag (p.table.find? id).isSome, p.onTable (·.setState id state))
  | .reserve count => update fun p =>
    let (granted, table) := p.table.reserve count p.config.maxCount
    (.count granted, { p with table, reserved := p.reserved + granted })
  | .dropReservation => do
    change fun p => { p.onTable (·.unreserve) with reserved := p.reserved - 1 }
    pure .nothing
  | .create state origin => createReserved nested state origin
  | .destroy id reason => do
    let slots ← takeOut reason fun t =>
      let (slot, table) := t.remove id
      (slot.toList, table)
    PoolM.destroy nested reason slots
    pure (.flag (!slots.isEmpty))
  | .advance time => do
    change (·.pass time)
    pure .nothing
  | .setCheck resource routine => do
    change fun p => { p with user := p.user.withCheck resource routine }
    pure .nothing
  | .setCheckDefault routine => do
    change fun p => { p with user := { p.user with checkDefault := routine } }
    pure .nothing
  | .pushFactory behaviours => do
    change fun p => { p with user := { p.user with factory := p.user.factory.push behaviours } }
    pure .nothing
  | .setFactoryDefault behaviour => do
    change fun p => { p with user := { p.user with factory := p.user.factory.withRest behaviour } }
    pure .nothing
  | .breakDestructor resource => do
    change fun p => { p with brittle := resource :: p.brittle }
    pure .nothing

/-- Note the start of an operation; what happens from now on happens inside it. -/
def enter (op : Op) : PoolM Unit := change fun p => { p.note (.began op) with depth := p.depth + 1 }

/-- Note the end of an operation. -/
def leave (op : Op) (reply : Reply) : PoolM Unit := change fun p =>
  { p with depth := p.depth - 1 }.note (.ended op reply)

/-- Run an action as the body of an operation. A panic is the answer. -/
def answering (nested : Op → PoolM Reply) (op : Op) (body : PoolM Reply) : PoolM Reply := do
  enter op
  let reply := match ← attempt nested body with
    | .ok reply => reply
    | .error panic => .panicked panic.message
  leave op reply
  pure reply

/-- An operation is answered with the value of its body. -/
theorem answering_of_returned {nested : Op → PoolM Reply} {op : Op} {body : PoolM Reply}
    {reply : Reply} {p q : Pool}
    (h : body { p.note (.began op) with depth := p.depth + 1 } = (.done reply, q)) :
    answering nested op body p =
      (.done reply, { q with depth := q.depth - 1 }.note (.ended op reply)) := by
  simp only [answering, enter, leave, bind_apply, change_apply, pure_apply, attempt_of_done h]

/-- Run an operation within a budget. -/
def run : Nat → Op → PoolM Reply
  | 0, _ => exceed
  | budget + 1, op => answering (run budget) op (perform (run budget) budget op)

end PoolM

end LeasePool
