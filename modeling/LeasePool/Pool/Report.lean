import LeasePool.Pool.Run

/-!
# Reports

A report tells what one operation answered, and what its run showed: lines of the history, the
resources it destroyed, and the state it left. A view selects the lines.
-/

namespace LeasePool

/-- Which entries of a history a reader sees. -/
structure View where
  /-- The reader sees trace records. -/
  traces : Bool := false
  /-- Events are written to the trace instead of being reported. -/
  eventsTraced : Bool := false
  /-- The reader sees calls of user code. -/
  calls : Bool := true

/-- A line of a report. -/
inductive Line
  /-- A factory call started. -/
  | factory
  /-- A health check of a resource started. -/
  | check (resource : Nat)
  | event (pool : String) (e : Event)
  | trace (r : TraceRecord)
  /-- A hook routine ran and saw a status. -/
  | hook (call : HookCall) (seen : Status)
  /-- A hook routine set the target. -/
  | applied (target : Nat)
  /-- An operation inside a call of user code ended. -/
  | nested (op : Op) (reply : Reply)

/-- The line for an entry in the history of the named pool, if the view shows it. -/
def View.line? (v : View) (pool : String) (r : Record) : Option Line :=
  match r.entry with
  | .event e =>
    if !v.eventsTraced then some (.event pool e)
    else if v.traces && r.traced then some (.trace (e.traced pool))
    else none
  | .trace t => if v.traces && r.traced then some (.trace t) else none
  | .factory _ => if v.calls then some .factory else none
  | .check resource .. => if v.calls then some (.check resource) else none
  | .noted call seen => if v.calls then some (.hook call seen) else none
  | .applied target => if v.calls then some (.applied target) else none
  | .ended op reply => if v.calls && 0 < r.depth then some (.nested op reply) else none
  | .began _ | .reserved .. | .verdict .. | .confirmed _ | .hook _ | .hookPanicked _ => none
  | .handedOut .. | .freeing .. | .returned .. => none

/-- What an operation on a pool answered and showed. -/
structure Report where
  /-- Nothing if the budget ran out. -/
  reply : Option Reply
  lines : List Line
  /-- The resources destroyed meanwhile, in increasing order. -/
  destroyed : List Nat
  status : Status
  /-- The idle slots, in table order. -/
  idleIds : List Nat

namespace Pool

/-- The budget of an operation, for nesting and for the rounds of an acquisition. -/
def budget : Nat := 1000000

/-- The entries of the history that a pool has gained since an earlier state, oldest first. -/
def recordsSince (p earlier : Pool) : List Record :=
  (p.history.take (p.history.length - earlier.history.length)).reverse

/-- The records since an earlier state are those that came on top of its history, in their order. -/
theorem recordsSince_eq {p earlier : Pool} {new : List Record}
    (h : p.history = new ++ earlier.history) : p.recordsSince earlier = new.reverse := by
  rw [recordsSince, h, List.length_append, Nat.add_sub_cancel, List.take_left]

/-- After one record there is one. -/
theorem recordsSince_cons {p earlier : Pool} {record : Record}
    (h : p.history = record :: earlier.history) : p.recordsSince earlier = [record] := by
  have hone : p.history = [record] ++ earlier.history := h
  rw [recordsSince_eq hone]
  rfl

/-- Records are told one stretch after another. -/
theorem recordsSince_trans {p q r : Pool} (hq : p.history <:+ q.history)
    (hr : q.history <:+ r.history) :
    r.recordsSince p = q.recordsSince p ++ r.recordsSince q := by
  obtain ⟨old, hold⟩ := hq
  obtain ⟨new, hnew⟩ := hr
  have hall : r.history = (new ++ old) ++ p.history := by
    rw [← hnew, ← hold, List.append_assoc]
  rw [recordsSince_eq hall, recordsSince_eq hold.symm, recordsSince_eq hnew.symm,
    List.reverse_append]

/-- The lines that a pool has gained since an earlier state. -/
def linesSince (p : Pool) (view : View) (earlier : Pool) : List Line :=
  (p.recordsSince earlier).filterMap (view.line? p.name)

/-- The resources destroyed since an earlier state, in increasing order. -/
def destroyedSince (p earlier : Pool) : List Nat :=
  (p.destroyed.take (p.destroyed.length - earlier.destroyed.length)).mergeSort

/-- Run an operation; nothing is its answer if the budget ran out. -/
def answer (op : Op) (p : Pool) : Option Reply × Pool :=
  match PoolM.run budget op p with
  | (.done reply, q) => (some reply, q)
  | (_, q) => (none, q)

/-- Run an operation and report on it. -/
def step (view : View) (op : Op) (p : Pool) : Report × Pool :=
  let (reply, q) := p.answer op
  ({ reply
     lines := q.linesSince view p
     destroyed := q.destroyedSince p
     status := q.status
     idleIds := q.table.idleIds }, q)

/-- Run operations one after another and report on each. -/
def steps (view : View) : List Op → Pool → List Report
  | [], _ => []
  | op :: ops, p =>
    let (report, q) := p.step view op
    report :: steps view ops q

end Pool

end LeasePool
