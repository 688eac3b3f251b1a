import LeasePool.Pool.Operation

/-!
# The state of a pool

A pool owns a slot table, a target, its counters and the signals of its two jobs. Around it stand
its callers with their handles and leases, the operations that are running with what they hold at
the moment, the resources the factory has made, and the history of all that has happened.

A resource is destroyed when nothing holds it any more: no slot of the table, no lease, no running
operation and no worker on which a check goes on for ever. What a running operation holds is kept on
one stack, so that a panic gives it back down to the point where the panic is caught.
-/

namespace LeasePool

/-- One acquisition, shared by all its handles. -/
structure Lease where
  id : Nat
  slot : Nat
  resource : Nat
  invalidated : Bool := false
deriving DecidableEq

/-- Why a running operation owns a slot that is not idle. -/
inductive Tenure
  /-- An acquisition has claimed the slot. -/
  | claim
  /-- The claimed slot counts as acquired, and its lease is about to begin. -/
  | handOver
  /-- The slot is parked for a health check. -/
  | examination
  /-- The lease of the slot has ended, and the slot is not given back yet. -/
  | release
deriving DecidableEq

/-- Something that a running operation holds, and gives back on every way out. -/
inductive Holding
  /-- Capacity for one creation. -/
  | reservation
  /-- A resource that the factory has just made. -/
  | product (resource : Nat)
  /-- A slot that the operation owns, and its resource. -/
  | slot (tenure : Tenure) (id resource : Nat)
  /-- A slot that has left the table, and why. -/
  | removed (reason : DestroyReason) (slot : Slot Nat)
  /-- A resource alone. -/
  | reference (resource : Nat)
  /-- A handle to a lease that has no name yet, or no longer. -/
  | handle (lease : Nat)
deriving DecidableEq

/-- The resource that a holding keeps alive. -/
def Holding.resource? : Holding → Option Nat
  | reservation | handle _ => none
  | product r | slot _ _ r | reference r => some r
  | removed _ s => some s.resource

/-- Who runs a health check. -/
inductive Checker
  | access
  | release
  | care
  | caller
deriving DecidableEq

/-- What of a pool can be seen at one moment, and what the running operations and the callers hold
then. -/
structure Sight where
  table : Table Nat
  desired : Nat
  handles : List (String × Nat)
  leases : List Lease
  reserved : Nat
  holdings : List Holding
  destroyed : List Nat
  closed : Bool
  keeperStopped : Bool
  careStopped : Bool
deriving DecidableEq

/-- Something that happened in a pool. -/
inductive Entry
  | began (op : Op)
  | ended (op : Op) (reply : Reply)
  | event (e : Event)
  | trace (r : TraceRecord)
  /-- Capacity was reserved for a part of the pool. -/
  | reserved (origin : Origin) (granted : Nat)
  /-- A factory call started. -/
  | factory (origin : Origin)
  /-- A health check started. -/
  | check (resource : Nat) (checker : Checker)
  /-- A health check ended. -/
  | verdict (resource : Nat) (checker : Checker) (result : Except CheckError Verdict)
  /-- A slot was marked as healthy. -/
  | confirmed (slot : Nat)
  /-- A hook callback started. -/
  | hook (call : HookCall)
  /-- A hook callback ended with a panic. -/
  | hookPanicked (call : HookCall)
  /-- A hook routine noted what it saw. -/
  | noted (call : HookCall) (status : Status)
  /-- A hook routine set the target. -/
  | applied (target : Nat)
  /-- A resource was handed out. -/
  | handedOut (slot resource : Nat)
  /-- The slot of an ended lease is about to become idle, if it is still in the table. -/
  | freeing (slot resource : Nat)
  /-- A lease ended. -/
  | returned (slot resource : Nat) (invalidated : Bool)

/-- An entry of the history: when it happened, how many operations were running then, whether it
happened on the traced thread, and what could be seen of the pool. -/
structure Record where
  time : Instant
  depth : Nat
  traced : Bool
  seen : Sight
  entry : Entry

/-- A clock that never goes backwards: it is read again and again, and before each reading some
time passes. -/
structure Clock where
  now : Instant := 0
  readings : Nat := 0
  /-- The nanoseconds that pass before each reading. -/
  lapse : Nat → Nat := fun _ => 1000

/-- Read a clock. -/
def Clock.read (c : Clock) : Clock :=
  { c with now := c.now + c.lapse c.readings, readings := c.readings + 1 }

/-- A pool, its callers, the operations running on it and its history. -/
structure Pool where
  name : String
  config : Config
  user : UserCode
  /-- The health-care job leaves replacements to the count keeper. -/
  delegates : Bool := false
  table : Table Nat := {}
  /-- The target of the count keeper. -/
  desired : Nat
  closed : Bool := false
  tally : Tally := {}
  keeperSignal : Signal := {}
  careSignal : Signal := {}
  /-- The names of handles, each with the number of its lease. -/
  handles : List (String × Nat) := []
  leases : List Lease := []
  nextLease : Nat := 0
  /-- Reservations held by callers. -/
  reserved : Nat := 0
  /-- What the running operations hold, the latest first. -/
  holdings : List Holding := []
  /-- Resources on workers whose check never ends. -/
  stuck : List Nat := []
  /-- How many operations are running, each inside the one before. -/
  depth : Nat := 0
  /-- The thread at work is the traced one; what others write to the trace is lost. -/
  traced : Bool := true
  /-- How many resources the factory has made; they are numbered from zero. -/
  made : Nat := 0
  /-- The destroyed resources, the latest first. -/
  destroyed : List Nat := []
  /-- Resources whose destructor will panic. -/
  brittle : List Nat := []
  clock : Clock := {}
  /-- All that has happened, the latest first. -/
  history : List Record := []

/-- The status of a pool with a slot table, a configuration and a target. -/
def Table.status (t : Table Nat) (config : Config) (desired : Nat) : Status :=
  { idle := t.count .idle
    inUse := t.count .inUse
    pending := t.count .pending
    creating := t.creating
    desired
    min := config.minCount
    max := config.maxCount }

namespace Pool

/-- A new pool. -/
def new (name : String) (config : Config) (user : UserCode) : Pool :=
  { name, config, user, desired := config.desiredCount }

/-- The status that a caller sees now. -/
def status (p : Pool) : Status := p.table.status p.config p.desired

/-- The counters and the status together. -/
def snapshot (p : Pool) : Snapshot := .ofStatus p.tally p.status

/-- What can be seen of a pool now. -/
def sight (p : Pool) : Sight :=
  { table := p.table
    desired := p.desired
    handles := p.handles
    leases := p.leases
    reserved := p.reserved
    holdings := p.holdings
    destroyed := p.destroyed
    closed := p.closed
    keeperStopped := p.keeperSignal.isStopped
    careStopped := p.careSignal.isStopped }

/-- Write an entry into the history. -/
def note (e : Entry) (p : Pool) : Pool :=
  { p with history := ⟨p.clock.now, p.depth, p.traced, p.sight, e⟩ :: p.history }

/-- Let time pass. -/
def pass (time : Duration) (p : Pool) : Pool :=
  { p with clock := { p.clock with now := p.clock.now + time.nanos } }

/-- Change the slot table. -/
def onTable (f : Table Nat → Table Nat) (p : Pool) : Pool := { p with table := f p.table }

/-- Put a holding on the stack. -/
def hold (h : Holding) (p : Pool) : Pool := { p with holdings := h :: p.holdings }

/-- Take the latest equal holding off the stack. -/
def unhold (h : Holding) (p : Pool) : Pool := { p with holdings := p.holdings.erase h }

/-- Hold one thing in place of another. -/
def exchange (h other : Holding) (p : Pool) : Pool := (p.unhold h).hold other

/-- Own a slot no longer, and only refer to its resource. -/
def disown (tenure : Tenure) (id resource : Nat) (p : Pool) : Pool :=
  p.exchange (.slot tenure id resource) (.reference resource)

/-- Whether the count keeper must not go on. -/
def keeperStops (p : Pool) : Bool := p.keeperSignal.isStopped || p.closed

/-- Whether the health-care job must not go on. -/
def careStops (p : Pool) : Bool := p.careSignal.isStopped || p.closed

/-- The lease of a handle. -/
def lease? (p : Pool) (handle : String) : Option Lease := do
  let id ← p.handles.lookup handle
  p.leases.find? (·.id == id)

/-- Whether anything keeps a resource alive. -/
def isHeld (p : Pool) (resource : Nat) : Bool :=
  p.table.slots.any (·.resource == resource) || p.leases.any (·.resource == resource) ||
    p.holdings.any (·.resource? == some resource) || p.stuck.contains resource

/-- Destroy a resource unless something still holds it. -/
def settle (resource : Nat) (p : Pool) : Pool :=
  if p.isHeld resource then p else { p with destroyed := resource :: p.destroyed }

/-- Destroy a resource unless something still holds it. Its destructor can panic only once. -/
def discard (resource : Nat) (p : Pool) : Pool :=
  if p.isHeld resource then p
  else { p.settle resource with brittle := p.brittle.erase resource }

/-- What the destructor of a resource does when the resource is let go of: the operations that it
runs, and whether it panics after them. Nothing happens to a resource that something still holds. -/
def parting (p : Pool) (resource : Nat) : List Op × Bool :=
  if p.isHeld resource then ([], false)
  else (p.user.destructor resource, p.brittle.contains resource)

/-- Give back the latest holding of the running operations, while a panic unwinds: no destructor
panics then. -/
def giveBackLatest (p : Pool) : Pool :=
  match p.holdings with
  | [] => p
  | h :: rest =>
    let p := { p with holdings := rest }
    match h, h.resource? with
    | .reservation, _ => { p with table := p.table.unreserve }
    | _, some r => p.settle r
    | _, none => p

/-- The operations that run when the latest holding is given back: those of the destructor of its
resource, unless something else holds it. -/
def partingLatest (p : Pool) : List Op :=
  match p.holdings with
  | [] => []
  | h :: rest =>
    match h.resource? with
    | some r => ({ p with holdings := rest }.parting r).1
    | none => []

/-- A status counts every live resource once: no slot of a table is in two states. -/
theorem live_status {t : Table Nat} (h : ∀ s ∈ t.slots, s.state ≠ .invalid) (config : Config)
    (desired : Nat) : (t.status config desired).live = t.live := by
  have hcount : t.count .idle + t.count .inUse + t.count .pending =
      t.slots.countP (·.state != .invalid) := by
    simp only [Table.count]
    revert h
    induction t.slots with
    | nil => simp
    | cons s slots ih =>
      intro h
      have := ih fun s' hs' => h s' (List.mem_cons_of_mem _ hs')
      have hs := h s List.mem_cons_self
      rw [List.countP_cons, List.countP_cons, List.countP_cons, List.countP_cons]
      cases hstate : s.state <;> simp_all <;> omega
  exact congrArg (fun n => wrap (n + t.creating)) hcount

/-- Settling a resource touches only the list of destroyed ones. -/
theorem settle_eq (p : Pool) (r : Nat) :
    p.settle r = { p with destroyed := (p.settle r).destroyed } := by
  unfold settle
  split <;> rfl

/-- Discarding a resource touches only the lists of destroyed and of breakable ones. -/
theorem discard_eq (p : Pool) (r : Nat) :
    p.discard r =
      { p with destroyed := (p.discard r).destroyed, brittle := (p.discard r).brittle } := by
  unfold discard
  split
  · rfl
  · rw [settle_eq]

@[simp] theorem holdings_settle (p : Pool) (r : Nat) : (p.settle r).holdings = p.holdings := by
  rw [settle_eq]

/-- What is given back is the top of the stack. -/
@[simp] theorem holdings_giveBackLatest (p : Pool) :
    p.giveBackLatest.holdings = p.holdings.tail := by
  unfold giveBackLatest
  split
  · next h => rw [h, List.tail_nil]
  · next h =>
    rw [h, List.tail_cons]
    dsimp only
    split
    · rfl
    · exact holdings_settle _ _
    · rfl

/-- Giving back a holding touches only the reservations, the holdings and the destroyed resources.
-/
theorem giveBackLatest_eq (p : Pool) :
    p.giveBackLatest = { p with
      table := { p.table with
        creating := p.giveBackLatest.table.creating
        overdrawn := p.giveBackLatest.table.overdrawn }
      holdings := p.giveBackLatest.holdings
      destroyed := p.giveBackLatest.destroyed } := by
  unfold giveBackLatest
  split
  · rfl
  · dsimp only
    split
    · rfl
    · rw [settle_eq]
    · rfl

/-- A resource lives on while a slot, a lease, a running operation or a silent worker has it. -/
theorem isHeld_iff (p : Pool) (r : Nat) :
    p.isHeld r = true ↔ (∃ s ∈ p.table.slots, s.resource = r) ∨ (∃ l ∈ p.leases, l.resource = r) ∨
      (∃ h ∈ p.holdings, h.resource? = some r) ∨ r ∈ p.stuck := by
  simp only [isHeld, Bool.or_eq_true, List.any_eq_true, beq_iff_eq, List.contains_iff_mem,
    or_assoc]

end Pool

end LeasePool
