import LeasePool.Pool.Creation

/-!
# The count keeper

One cycle of the count keeper asks the hook, and then creates idle resources up to the target, or
destroys idle resources above it, the least recently used ones first. A cycle of a stopped job or a
closed pool does nothing.
-/

namespace LeasePool.PoolM

/-- Grow to the target, or shrink to it: the reservations taken, and the slots taken out. -/
def resize : PoolM (Nat × List (Slot Nat)) := do
  let desired ← read (·.desired)
  let live ← read (·.table.live)
  if live < desired then
    let granted ← reserve .countKeeper (desired - live)
    pure (granted, [])
  else
    let surplus ← takeOut .surplus (·.removeIdleLru (live - desired))
    pure (0, surplus)

/-- Trace what a cycle did, if it did anything. -/
def traceKeeper (report : KeeperReport) : PoolM Unit := do
  if report ≠ {} then
    trace .trace "count keeper cycle"
      [("created", .count report.created), ("destroyed", .count report.destroyed)]

/-- The body of a keeper cycle. -/
def runKeeper (nested : Op → PoolM Reply) : PoolM (Except KeeperFailure KeeperReport) := do
  if ← read (·.keeperStops) then pure (.ok {})
  else
    callHook nested .maintenance
    let (granted, surplus) ← resize
    destroy nested .surplus surplus
    match ← fill nested .countKeeper (·.keeperStops) granted with
    | .ok created =>
      let report : KeeperReport := { created, destroyed := surplus.length }
      traceKeeper report
      pure (.ok report)
    | .error error => pure (.error (.creation error))

/-- One keeper cycle. A panic of the hook or of a destructor is a failure of the cycle. -/
def keeperCycle (nested : Op → PoolM Reply) : PoolM (Except KeeperFailure KeeperReport) := do
  match ← attempt nested (runKeeper nested) with
  | .ok result => pure result
  | .error panic => pure (.error (.panicked panic.message))

end LeasePool.PoolM
