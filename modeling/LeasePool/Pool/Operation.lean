import LeasePool.Verdict
import LeasePool.Event
import LeasePool.Scaling
import LeasePool.Signal
import LeasePool.Metrics.Snapshot
import LeasePool.Table.Basic

/-!
# Operations on a pool, and user code

A pool calls user code: its factory, its health check, its management hook and the destructors of
its resources. A call of user code may run operations on the pool before it ends with a result or a
panic. So the operations and the behaviour of user code are defined together: the behaviour of one
call is a list of operations and an outcome, and a routine gives the behaviours of successive calls.
A destructor runs once, so it has a list of operations for each resource.
-/

namespace LeasePool

/-- What one call of user code does: operations on the pool, then an outcome. -/
structure Behaviour (op outcome : Type) where
  during : List op
  outcome : outcome
deriving Inhabited

/-- The behaviours of successive calls: those of a queue, then one that stays. -/
structure Routine (β : Type) where
  queue : List β
  rest : β
deriving Inhabited

/-- The behaviour of the next call, and the routine of the calls after it. -/
def Routine.next {β : Type} : Routine β → β × Routine β
  | ⟨[], rest⟩ => (rest, ⟨[], rest⟩)
  | ⟨b :: queue, rest⟩ => (b, ⟨queue, rest⟩)

/-- Add behaviours at the end of the queue. -/
def Routine.push {β : Type} (behaviours : List β) (r : Routine β) : Routine β :=
  { r with queue := r.queue ++ behaviours }

/-- Replace the behaviour that stays. -/
def Routine.withRest {β : Type} (behaviour : β) (r : Routine β) : Routine β :=
  { r with rest := behaviour }

/-- How a factory call ends. -/
inductive Production
  | success
  | failure (error : CreationError)
  | panic (p : Panic)
deriving Inhabited

/-- How a health check ends. -/
inductive Examination
  | answer (result : Except CheckError Verdict)
  /-- It gives no answer before the timeout. -/
  | silence
  /-- Its worker goes away without an answer. -/
  | abandonment
  | panic (p : Panic)
deriving Inhabited

/-- How a hook callback ends, and the target it asks for first. -/
structure Reaction where
  wanted : Option Nat := none
  panic : Option Panic := none

/-- An operation on a pool. -/
inductive Op
  /-- Acquire a resource and store its handle under a name. -/
  | acquire (handle : String)
  /-- Acquire a resource on a thread of its own, and store its handle under a name. -/
  | acquireOnThread (handle : String)
  /-- Store a second handle to the same lease. -/
  | share (handle copy : String)
  | drop (handle : String)
  /-- Drop a handle on a thread of its own, where a panic stays. -/
  | dropOnThread (handle : String)
  | invalidate (handle : String)
  | inspect (handle : String)
  /-- One cycle of the count keeper. -/
  | keeper
  /-- One cycle of the health-care job. -/
  | care
  | stopKeeper
  | stopCare
  /-- The count keeper looks at its signal once. -/
  | awaitKeeper
  | close
  | drain
  | isClosed
  | status
  | metrics
  /-- The metrics as texts. -/
  | exported
  | desired
  | setDesired (count : Nat)
  /-- Check the resource of a handle. -/
  | probe (handle : String)
  | slot (id : Nat)
  | setState (id : Nat) (state : SlotState)
  /-- Reserve capacity for creations of one's own. -/
  | reserve (count : Nat)
  | dropReservation
  /-- Create a resource with a reservation of one's own. -/
  | create (state : SlotState) (origin : Origin)
  | destroy (id : Nat) (reason : DestroyReason)
  /-- Time passes. -/
  | advance (time : Duration)
  | setCheck (resource : Nat) (routine : Routine (Behaviour Op Examination))
  | setCheckDefault (routine : Routine (Behaviour Op Examination))
  | pushFactory (behaviours : List (Behaviour Op Production))
  | setFactoryDefault (behaviour : Behaviour Op Production)
  /-- The destructor of a resource will panic. -/
  | breakDestructor (resource : Nat)

instance : Inhabited Op := ⟨.status⟩

/-- What the factory does at each of its calls. -/
abbrev FactoryRoutine := Routine (Behaviour Op Production)

/-- What the health check of a resource does at each of its calls. -/
abbrev CheckRoutine := Routine (Behaviour Op Examination)

/-- The behaviours of a hook callback by the number of the call, and how many calls there were. -/
structure HookRoutine where
  behaviour : Nat → Behaviour Op Reaction
  calls : Nat := 0

/-- The behaviour of the next call, and the routine of the calls after it. -/
def HookRoutine.next (r : HookRoutine) : Behaviour Op Reaction × HookRoutine :=
  (r.behaviour r.calls, { r with calls := r.calls + 1 })

/-- The management hook of a pool: user code for some of the callbacks, and a policy that scales
with the load after it. -/
structure Hook where
  acquired : Option HookRoutine := none
  released : Option HookRoutine := none
  exhausted : Option HookRoutine := none
  maintenance : Option HookRoutine := none
  scaling : Option LoadScaling := none

namespace Hook

/-- The hook that does nothing. -/
def idle : Hook := {}

/-- The routine for a callback. -/
def routine? (h : Hook) : HookCall → Option HookRoutine
  | .acquired => h.acquired
  | .released => h.released
  | .exhausted => h.exhausted
  | .maintenance => h.maintenance

/-- Replace the routine for a callback. -/
def withRoutine (routine : HookRoutine) (h : Hook) : HookCall → Hook
  | .acquired => { h with acquired := some routine }
  | .released => { h with released := some routine }
  | .exhausted => { h with exhausted := some routine }
  | .maintenance => { h with maintenance := some routine }

/-- An idle hook has no routine for any callback. -/
@[simp] theorem routine?_idle (call : HookCall) : idle.routine? call = none := by
  cases call <;> rfl

/-- A replaced routine is the one that runs next, and the others stay. -/
theorem routine?_withRoutine (routine : HookRoutine) (h : Hook) (call other : HookCall) :
    (h.withRoutine routine call).routine? other =
      if other = call then some routine else h.routine? other := by
  cases call <;> cases other <;> rfl

end Hook

/-- Where a health check runs: on the thread that asks, or on a worker that reports back. A panic on
a worker loses the answer. -/
inductive CheckStyle
  | direct
  | onWorker
deriving DecidableEq

/-- The user code of a pool. -/
structure UserCode where
  factory : FactoryRoutine
  /-- Routines for the checks of particular resources. -/
  checks : List (Nat × CheckRoutine)
  checkDefault : CheckRoutine
  /-- How checks run; none if the pool has no health check. -/
  checkStyle : Option CheckStyle
  hook : Hook
  /-- The operations that the destructor of a resource runs. -/
  destructor : Nat → List Op := fun _ => []

namespace UserCode

/-- User code that always succeeds and runs no operation. -/
def plain : UserCode :=
  { factory := ⟨[], ⟨[], .success⟩⟩
    checks := []
    checkDefault := ⟨[], ⟨[], .answer (.ok .healthy)⟩⟩
    checkStyle := none
    hook := .idle }

/-- The routine for the checks of a resource. -/
def checkRoutine (u : UserCode) (resource : Nat) : CheckRoutine :=
  (u.checks.lookup resource).getD u.checkDefault

/-- Replace the routine for the checks of a resource. -/
def withCheck (resource : Nat) (routine : CheckRoutine) (u : UserCode) : UserCode :=
  { u with checks := (resource, routine) :: u.checks.filter (·.1 != resource) }

/-- The behaviour of the next check of a resource. -/
def nextCheck (u : UserCode) (resource : Nat) : Behaviour Op Examination × UserCode :=
  let (behaviour, routine) := (u.checkRoutine resource).next
  match u.checks.lookup resource with
  | some _ => (behaviour, u.withCheck resource routine)
  | none => (behaviour, { u with checkDefault := routine })

end UserCode

/-- What one keeper cycle did. -/
structure KeeperReport where
  created : Nat := 0
  destroyed : Nat := 0
deriving DecidableEq

/-- What one health-care cycle did. -/
structure CareReport where
  checked : Nat := 0
  unhealthy : Nat := 0
  expired : Nat := 0
  replaced : Nat := 0
deriving DecidableEq

/-- The answer to an operation. -/
inductive Reply
  | nothing
  | noHandle
  | flag (b : Bool)
  | count (n : Nat)
  /-- A slot and its resource, handed out or created. -/
  | leased (slot resource : Nat)
  | refused (error : PoolError)
  | handle (slot resource : Nat) (invalidated : Bool)
  | keeper (result : Except KeeperFailure KeeperReport)
  | care (result : Except CareFailure CareReport)
  | woken (wake : Wake)
  | status (s : Status)
  | metrics (m : Snapshot)
  | exported (m : List (String × String))
  | checked (result : Except CheckError Verdict)
  | slot (s : Option (Slot Nat))
  /-- A resource that was created after the pool had closed. -/
  | discarded
  | notCreated (error : CreationError)
  | panicked (message : String)

end LeasePool
