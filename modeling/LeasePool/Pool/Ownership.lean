import LeasePool.Pool.Monad

/-!
# Holding and destroying resources

Actions take things out of the table and put them on the stack of holdings in one step. Letting go
of the last holding of a resource destroys it: its destructor runs operations on the pool, and may
panic after them. Where a panic is caught, what is still held above is given back, and destructors
run their operations then as well. How an operation runs inside of user code is a parameter, so that
the operations themselves can be defined on top of this.
-/

namespace LeasePool.PoolM

/-- Report an event. -/
def emit (e : Event) : PoolM Unit := change (·.note (.event e))

/-- Write a trace record that names the pool. -/
def trace (severity : Severity) (message : String) (fields : List (String × FieldValue)) :
    PoolM Unit :=
  change fun p => p.note (.trace ⟨severity, message, ("pool", .text p.name) :: fields⟩)

/-- Add one to a counter of the pool. -/
def bump (c : Counter) : PoolM Unit := change fun p => { p with tally := p.tally.bump c }

/-- Add an amount to a counter of the pool. -/
def addTo (c : Counter) (n : Nat) : PoolM Unit :=
  change fun p => { p with tally := p.tally.add c n.toUInt64 }

/-- Read the clock. -/
def now : PoolM Instant := update fun p =>
  let clock := p.clock.read
  (clock.now, { p with clock })

/-- Put a holding on the stack. -/
def hold (h : Holding) : PoolM Unit := change (·.hold h)

/-- The panic of the destructor of a resource. -/
def destructorPanic (resource : Nat) : Panic := .ofText s!"drop of {resource} failed"

/-- Run the operations of a call of user code. -/
def runInside (nested : Op → PoolM Reply) : List Op → PoolM Unit
  | [] => pure ()
  | op :: ops => do
    let _ ← nested op
    runInside nested ops

/-- Let the destructor of a resource do what it does. -/
def part (nested : Op → PoolM Reply) (resource : Nat) (parting : List Op × Bool) : PoolM Unit := do
  runInside nested parting.1
  if parting.2 then raise (destructorPanic resource)

/-- Destroy a resource unless something still holds it. -/
def dispose (nested : Op → PoolM Reply) (resource : Nat) : PoolM Unit := do
  let parting ← update fun p => (p.parting resource, p.discard resource)
  part nested resource parting

/-- Take the latest equal holding off the stack, and let go of its resource. -/
def letGo (nested : Op → PoolM Reply) (h : Holding) : PoolM Unit := do
  change (·.unhold h)
  match h.resource? with
  | some r => dispose nested r
  | none => pure ()

/-- Letting go of a holding takes it from the stack and parts from its resource. -/
theorem letGo_apply {h : Holding} {resource : Nat} (hr : h.resource? = some resource)
    (nested : Op → PoolM Reply) (p : Pool) :
    letGo nested h p =
      part nested resource ((p.unhold h).parting resource) ((p.unhold h).discard resource) := by
  simp only [letGo, hr, bind_apply, change_apply]
  rfl

/-- Give back the latest holding of the running operations, while a panic unwinds. -/
def unwindOne (nested : Op → PoolM Reply) : PoolM Unit := do
  let during ← update fun p => (p.partingLatest, p.giveBackLatest)
  runInside nested during

/-- Give back a number of holdings, the latest first. -/
def unwind (nested : Op → PoolM Reply) : Nat → PoolM Unit
  | 0 => pure ()
  | n + 1 => do
    unwindOne nested
    unwind nested n

/-- Run an action and catch its panic: what it still held is given back. -/
def attempt {α : Type} (nested : Op → PoolM Reply) (m : PoolM α) : PoolM (Except Panic α) :=
  fun p =>
    match m p with
    | (.done value, q) => (.done (.ok value), q)
    | (.panicked panic, q) =>
      (unwind nested (q.holdings.length - p.holdings.length) >>= fun _ =>
        pure (.error panic)) q
    | (.exceeded, q) => (.exceeded, q)

/-- An attempt that succeeds does what the action does. -/
theorem attempt_of_done {α : Type} {nested : Op → PoolM Reply} {m : PoolM α} {p q : Pool}
    {value : α} (h : m p = (.done value, q)) : attempt nested m p = (.done (.ok value), q) := by
  unfold attempt
  rw [h]

/-- A caught action runs out of budget itself, or what destructors run does while its panic
unwinds. -/
theorem exceeded_of_attempt {α : Type} {nested : Op → PoolM Reply} {m : PoolM α} {p : Pool}
    (h : (attempt nested m p).1 = .exceeded) :
    (m p).1 = .exceeded ∨ ∃ panic q, m p = (.panicked panic, q) ∧
      (unwind nested (q.holdings.length - p.holdings.length) q).1 = .exceeded := by
  unfold attempt at h
  generalize m p = ending at h
  obtain ⟨value | panic | _, q⟩ := ending
  · cases h
  · rcases exceeded_of_bind h with h | ⟨_, _, -, h⟩
    · exact .inr ⟨panic, q, rfl, h⟩
    · cases h
  · exact .inl rfl

/-- Take slots out of the table; the running operation holds them. -/
def takeOut (reason : DestroyReason) (f : Table Nat → List (Slot Nat) × Table Nat) :
    PoolM (List (Slot Nat)) :=
  update fun p =>
    let (slots, table) := f p.table
    (slots, { p with table, holdings := slots.map (.removed reason) ++ p.holdings })

/-- Mark a slot of the running operation as broken and take it out of the table, if it is still
there. -/
def takeOutBroken (tenure : Tenure) (id resource : Nat) (reason : DestroyReason) :
    PoolM (List (Slot Nat)) := do
  change (·.disown tenure id resource)
  takeOut reason fun t =>
    let (slot, table) := t.invalidate id
    (slot.toList, table)

/-- Record the destruction of a slot that has left the table, and let go of it. -/
def destroyOne (nested : Op → PoolM Reply) (reason : DestroyReason) (s : Slot Nat) :
    PoolM Unit := do
  bump .destroyed
  emit (.resourceDestroyed s.id reason)
  letGo nested (.removed reason s)

/-- Destroy slots that have left the table, one by one. -/
def destroy (nested : Op → PoolM Reply) (reason : DestroyReason) : List (Slot Nat) → PoolM Unit
  | [] => pure ()
  | s :: rest => do
    destroyOne nested reason s
    destroy nested reason rest

/-- Take out all slots and destroy them. -/
def drain (nested : Op → PoolM Reply) : PoolM Unit := do
  let slots ← takeOut .shutdown (·.drain)
  destroy nested .shutdown slots

/-- Reserve capacity for some of the creations that a part of the pool wants; the running operation
holds it. -/
def reserve (origin : Origin) (wanted : Nat) : PoolM Nat := update fun p =>
  let (granted, table) := p.table.reserve wanted p.config.maxCount
  let held : List Holding := List.replicate granted .reservation
  (granted, { p with table, holdings := held ++ p.holdings }.note (.reserved origin granted))

/-- Give back reservations of the running operation. -/
def unreserve : Nat → PoolM Unit
  | 0 => pure ()
  | n + 1 => do
    change fun p => (p.onTable (·.unreserve)).unhold .reservation
    unreserve n

end LeasePool.PoolM
