import LeasePool.Pool.Callback

/-!
# Creating resources

A creation takes one reservation of the running operation and ends it on every way: the resource
enters the table in its place, or the capacity is given back. A pool that closed while the factory
ran takes no new resource.
-/

namespace LeasePool.PoolM

/-- Call the factory on behalf of a part of the pool. A panic reaches a caller who acquires, and is
a failed creation for a background job. -/
def produce (nested : Op → PoolM Reply) (origin : Origin) : PoolM (Except CreationError Nat) :=
  match origin with
  | .acquire => callFactory nested .acquire
  | .countKeeper | .healthCareJob => do
    match ← attempt nested (callFactory nested origin) with
    | .ok result => pure result
    | .error panic => pure (.error (.ofPanic panic))

/-- Put a new resource into the table in place of a reservation. A slot in use is claimed. -/
def commit (resource : Nat) (state : SlotState) (origin : Origin) : PoolM Nat := do
  let time ← now
  let id ← update fun p =>
    let (id, table) := p.table.commit resource state time
    let claims := if state = .inUse then [.slot .claim id resource] else []
    let left := (p.holdings.erase (.product resource)).erase .reservation
    (id, { p with table, holdings := claims ++ left })
  bump .created
  emit (.resourceCreated id origin)
  pure id

/-- Turn one reservation of the running operation into a resource of the table. There is no slot
for the resource if the pool has closed meanwhile. -/
def createResource (nested : Op → PoolM Reply) (state : SlotState) (origin : Origin) :
    PoolM (Except CreationError (Option (Nat × Nat))) := do
  match ← produce nested origin with
  | .ok resource =>
    if ← read (·.closed) then
      unreserve 1
      trace .debug "pool closed during creation, dropping resource" [("origin", .text origin.name)]
      letGo nested (.product resource)
      pure (.ok none)
    else
      let id ← commit resource state origin
      pure (.ok (some (id, resource)))
  | .error error =>
    unreserve 1
    bump .creationFailures
    emit (.resourceCreationFailed origin error.text)
    pure (.error error)

/-- Create idle resources for some reservations of the running operation, one after another. The
reservations that are left over when the creations fail, or are told to stop, are given back. -/
def fill (nested : Op → PoolM Reply) (origin : Origin) (stops : Pool → Bool) :
    Nat → PoolM (Except CreationError Nat)
  | 0 => pure (.ok 0)
  | n + 1 => do
    if ← read stops then
      unreserve (n + 1)
      pure (.ok 0)
    else
      match ← createResource nested .idle origin with
      | .ok (some _) => do
        let others ← fill nested origin stops n
        pure (others.map (· + 1))
      | .ok none =>
        unreserve n
        pure (.ok 0)
      | .error error =>
        unreserve n
        pure (.error error)

end LeasePool.PoolM
