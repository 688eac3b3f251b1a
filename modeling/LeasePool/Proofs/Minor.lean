import LeasePool.Proofs.Course

/-!
# Minor parts of actions

Most parts of actions are minor, so they keep to any course. The calls of user code do if the
operations inside of them do, apart from the start and the end of a health check. This module goes
through all of them once.
-/

namespace LeasePool.PoolM

open Pool (Course)

variable {R : Pool → Pool → Prop} [Course R]

section Ownership

/-- An event that reports no failure is minor. -/
theorem keeps_emit {e : Event} (he : (Entry.event e).isMinor = true) : Keeps R (emit e) :=
  .note fun _ => ⟨_, rfl, rfl, he⟩

/-- Writing a trace is minor. -/
theorem keeps_trace (severity : Severity) (message : String) (fields : List (String × FieldValue)) :
    Keeps R (trace severity message fields) :=
  .note fun _ => ⟨_, rfl, rfl, rfl⟩

/-- Adding to a counter that counts no checks is minor. -/
theorem keeps_addTo {c : Counter} (hc : c.countsChecks = false) (n : UInt64) :
    Keeps R (change fun p => { p with tally := p.tally.add c n }) := by
  refine .change fun p => ?_
  cases c with
  | healthChecks | healthCheckFailures | healthCheckErrors => cases hc
  | _ => rfl

theorem keeps_bump {c : Counter} (hc : c.countsChecks = false) : Keeps R (bump c) :=
  keeps_addTo hc 1

theorem keeps_now : Keeps R now := .update fun _ => rfl

theorem keeps_hold (h : Holding) : Keeps R (hold h) := .change fun _ => rfl

/-- Taking slots out is minor. -/
theorem keeps_takeOut (reason : DestroyReason) (f : Table Nat → List (Slot Nat) × Table Nat) :
    Keeps R (takeOut reason f) :=
  .update fun _ => rfl

/-- Taking a broken slot out is minor. -/
theorem keeps_takeOutBroken (tenure : Tenure) (id resource : Nat) (reason : DestroyReason) :
    Keeps R (takeOutBroken tenure id resource reason) :=
  .bind (.change fun _ => rfl) fun _ => keeps_takeOut _ _

/-- Reserving capacity is minor. -/
theorem keeps_reserve (origin : Origin) (wanted : Nat) : Keeps R (reserve origin wanted) :=
  .noteValue fun _ => ⟨_, rfl, rfl, rfl⟩

theorem keeps_unreserve (n : Nat) : Keeps R (unreserve n) := by
  induction n with
  | zero => exact .pure ()
  | succ n ih => exact .bind (.change fun _ => rfl) fun _ => ih

end Ownership

/-- Setting the target is minor. -/
theorem keeps_setDesired (wanted : Nat) : Keeps R (setDesired wanted) :=
  .bind (.read _) fun _ => (Keeps.ofExcept _).bind fun _ => .bind (.change fun _ => rfl) fun _ =>
    .pure _

/-- What a load-scaling policy does is minor. -/
theorem keeps_followPolicy (policy : LoadScaling) (call : HookCall) :
    Keeps R (followPolicy policy call) := by
  refine .bind (.read _) fun status => .bind (.read _) fun target => ?_
  split
  · exact .pure ()
  · refine (keeps_setDesired _).bind fun applied => ?_
    split
    · split
      · exact .note fun _ => ⟨_, rfl, rfl, rfl⟩
      · exact .pure ()
    · exact .pure ()

/-- A routine that moves the target does what is minor. -/
theorem keeps_aim (wanted : Option Nat) : Keeps R (aim wanted) := by
  cases wanted with
  | none => exact .pure ()
  | some wanted => exact (keeps_setDesired wanted).bind fun _ => .note fun _ => ⟨_, rfl, rfl, rfl⟩

/-- What the scaling of a hook does is minor. -/
theorem keeps_followScaling (scaling : Option LoadScaling) (call : HookCall) :
    Keeps R (followScaling scaling call) := by
  cases scaling with
  | none => exact .pure ()
  | some policy => exact keeps_followPolicy policy call

/-- What a check leaves to wait for is minor. -/
theorem keeps_examined (style : CheckStyle) (resource : Nat) (examination : Examination) :
    Keeps R (examined style resource examination) := by
  cases examination with
  | answer result => exact .pure _
  | silence =>
    cases style with
    | direct => exact .pure _
    | onWorker => exact .bind (.change fun _ => rfl) fun _ => .pure _
  | abandonment => exact .pure _
  | panic panic =>
    cases style with
    | direct => exact .raise _
    | onWorker => exact .pure _

/-- Claiming a slot is minor. -/
theorem keeps_claim : Keeps R claim := by
  refine .update fun p => ?_
  split <;> rfl

theorem keeps_confirm (id : Nat) : Keeps R (confirm id) :=
  keeps_now.bind fun _ => .note fun _ => ⟨_, rfl, rfl, rfl⟩

/-- Counting an acquisition is minor. -/
theorem keeps_countAcquired (id resource : Nat) : Keeps R (countAcquired id resource) :=
  (keeps_bump rfl).bind fun _ => .change fun _ => rfl

theorem keeps_beginLease (id resource : Nat) : Keeps R (beginLease id resource) :=
  .noteValue fun _ => ⟨_, rfl, rfl, rfl⟩

/-- Adding a slot is minor. -/
theorem keeps_commit (resource : Nat) (state : SlotState) (origin : Origin) :
    Keeps R (commit resource state origin) :=
  keeps_now.bind fun _ => .bind (.update fun _ => rfl) fun _ =>
    (keeps_bump rfl).bind fun _ => (keeps_emit rfl).bind fun _ => .pure _

theorem keeps_countReturn (lease : Lease) : Keeps R (countReturn lease) :=
  (keeps_bump rfl).bind fun _ => .note fun _ => ⟨_, rfl, rfl, rfl⟩

/-- Putting a slot back is minor. -/
theorem keeps_giveBack (lease : Lease) : Keeps R (giveBack lease) :=
  keeps_now.bind fun _ => .bind (.note fun _ => ⟨_, rfl, rfl, rfl⟩) fun _ => keeps_countReturn lease

/-- Giving a slot up is minor. -/
theorem keeps_giveUp (lease : Lease) (reason : DestroyReason) : Keeps R (giveUp lease reason) :=
  (keeps_takeOutBroken _ _ _ _).bind fun _ => (keeps_countReturn lease).bind fun _ => .pure _

/-- Ending a lease is minor. -/
theorem keeps_endLease (id : Nat) : Keeps R (endLease id) := by
  refine .update fun p => ?_
  dsimp only
  split
  · rfl
  · split <;> rfl

/-- Parking a slot is minor. -/
theorem keeps_park (id : Nat) : Keeps R (park id) := by
  refine .update fun p => ?_
  split <;> rfl

/-- Putting a healthy slot back is minor. -/
theorem keeps_reinstate (id resource : Nat) : Keeps R (reinstate id resource) :=
  keeps_now.bind fun _ => .note fun _ => ⟨_, rfl, rfl, rfl⟩

/-- Putting a slot back without a verdict is minor. -/
theorem keeps_unpark (id resource : Nat) (error : CheckError) :
    Keeps R (unpark id resource error) :=
  .bind (.change fun _ => rfl) fun _ => keeps_trace _ _ _

theorem keeps_traceCare (report : CareReport) : Keeps R (traceCare report) := by
  unfold traceCare
  split
  · exact keeps_trace _ _ _
  · exact .pure ()

theorem keeps_traceKeeper (report : KeeperReport) : Keeps R (traceKeeper report) := by
  unfold traceKeeper
  split
  · exact keeps_trace _ _ _
  · exact .pure ()

/-- Planning a keeper cycle is minor. -/
theorem keeps_resize : Keeps R resize := by
  refine .bind (.read _) fun desired => .bind (.read _) fun live => ?_
  split
  · exact (keeps_reserve _ _).bind fun _ => .pure _
  · exact (keeps_takeOut _ _).bind fun _ => .pure _

section Nested

variable {p : Pool} {nested : Op → PoolM Reply} (hn : ∀ op, Answers R (nested op))

include hn

/-- Running operations inside keeps to the course if each of them does. -/
theorem keeps_runInside (ops : List Op) : Keeps R (runInside nested ops) :=
  (answers_runInside hn ops).keeps

/-- Disposing of a resource does no more than its destructor runs. -/
theorem keeps_dispose (resource : Nat) : Keeps R (dispose nested resource) := by
  refine .bind (.update fun p => ?_) fun parting => (keeps_runInside hn _).bind fun _ => ?_
  · rw [Pool.discard_eq]
    rfl
  · split
    · exact .raise _
    · exact .pure ()

/-- Letting go of a holding does no more than a destructor runs. -/
theorem keeps_letGo (h : Holding) : Keeps R (letGo nested h) := by
  refine .bind (.change fun _ => rfl) fun _ => ?_
  cases h.resource? with
  | some resource => exact keeps_dispose hn resource
  | none => exact .pure ()

/-- Destroying slots does no more than their destructors run. -/
theorem keeps_destroy (reason : DestroyReason) (slots : List (Slot Nat)) :
    Keeps R (destroy nested reason slots) := by
  induction slots with
  | nil => exact .pure ()
  | cons s rest ih =>
    have hone : Keeps R (destroyOne nested reason s) :=
      (keeps_bump rfl).bind fun _ => (keeps_emit rfl).bind fun _ => keeps_letGo hn _
    exact hone.bind fun _ => ih

/-- Evicting slots does no more than their destructors run. -/
theorem keeps_evict : Keeps R (evict nested) := by
  refine .bind (.read _) fun policy => ?_
  split
  · refine keeps_now.bind fun _ => .bind ?_ fun _ => (keeps_destroy hn _ _).bind fun _ => .pure _
    exact (keeps_takeOut _ _).bind fun _ => (keeps_addTo rfl _).bind fun _ => .pure _
  · exact .pure _

/-- A factory call does no more than it runs. -/
theorem keeps_callFactory (origin : Origin) : Keeps R (callFactory nested origin) := by
  refine .bind (.note fun _ => ⟨_, rfl, rfl, rfl⟩) fun _ =>
    .bind (.update fun _ => rfl) fun behaviour => ?_
  refine (keeps_runInside hn _).bind fun _ => ?_
  cases behaviour.outcome with
  | success => exact .update fun _ => rfl
  | failure error => exact .pure _
  | panic panic => exact .raise _

/-- A creation up to its commit does no more than the factory runs. -/
theorem keeps_produce (origin : Origin) : Keeps R (produce nested origin) := by
  cases origin with
  | acquire => exact keeps_callFactory hn .acquire
  | countKeeper | healthCareJob =>
    refine (keeps_attempt hn (keeps_callFactory hn _)).bind fun ending => ?_
    cases ending <;> exact .pure _

/-- The user code of a check does no more than it runs. -/
theorem keeps_answerCheck (style : CheckStyle) (resource : Nat) :
    Keeps R (answerCheck nested style resource) := by
  refine .bind (.update fun p => ?_) fun _ =>
    (keeps_runInside hn _).bind fun _ => keeps_examined _ _ _
  simp only [Pool.frame, UserCode.checkStyle_nextCheck, UserCode.hook_nextCheck]

/-- A routine of the hook moves on, so the hook must be the one that has it. -/
theorem leaves_followRoutine {call : HookCall} {routine : HookRoutine}
    (hr : p.user.hook.routine? call = some routine) :
    Leaves (followRoutine nested call routine) p (fun _ => R p) (R p) := by
  let noted : Pool := { p.note (.noted call p.status) with
    user := { p.user with hook := p.user.hook.withRoutine routine.next.2 call } }
  have hnoted : p.Minor noted :=
    { parts := ⟨_, [_], rfl, List.forall_mem_singleton.2 ⟨rfl, rfl⟩⟩
      hook := fun P hp => hp.withRoutine hr }
  refine Spec.change trivial (Leaves.since (Course.minor hnoted) ?_)
  refine (keeps_aim _).bind (fun _ => (keeps_runInside hn _).bind fun _ => ?_) noted
  split
  · exact .raise _
  · exact .pure ()

/-- A callback does no more than it runs. -/
theorem keeps_follow (call : HookCall) : Keeps R (follow nested call) := by
  intro p
  refine Spec.read ?_
  cases hr : p.user.hook.routine? call with
  | none => exact keeps_followScaling _ _ p
  | some routine =>
    exact Spec.bind (leaves_followRoutine hn hr) fun _ q hq =>
      Leaves.since hq (keeps_followScaling _ _ q)

/-- A callback does no more than it runs, also if it panics. -/
theorem keeps_callHook (call : HookCall) : Keeps R (callHook nested call) :=
  .bind (.note fun _ => ⟨_, rfl, rfl, rfl⟩) fun _ =>
    (keeps_follow hn call).onPanic (.note fun _ => ⟨_, rfl, rfl, rfl⟩)

end Nested

end LeasePool.PoolM
