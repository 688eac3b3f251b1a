import LeasePool.Pool.Creation

/-!
# The health-care job

One cycle of the health-care job evicts expired idle resources, checks the others, destroys the
unhealthy ones and replaces what it destroyed. A resource whose check gives no verdict stays idle,
and the failure is reported at the end. A cycle of a stopped job or a closed pool does nothing.
-/

namespace LeasePool.PoolM

/-- Take the expired idle slots out of the table, and count them. -/
def takeOutExpired (expired : Slot Nat → Bool) : PoolM (List (Slot Nat)) := do
  let slots ← takeOut .expired (·.removeIdleWhere expired)
  addTo .evictions slots.length
  pure slots

/-- Destroy the expired idle resources, and count them. -/
def evict (nested : Op → PoolM Reply) : PoolM Nat := do
  let policy ← read (·.config.eviction)
  if policy.isEnabled then
    let time ← now
    let expired ← takeOutExpired fun s => policy.expired s.createdAt s.lastUsed time
    destroy nested .expired expired
    pure expired.length
  else pure 0

/-- Park an idle slot for a health check. -/
def park (id : Nat) : PoolM (Option Nat) := update fun p =>
  match p.table.claimForCheck id with
  | some (s, table) =>
    (some s.resource, { p with table }.hold (.slot .examination s.id s.resource))
  | none => (none, p)

/-- A slot that is no longer parked. Other slots stay as they are. -/
def unparked (s : Slot Nat) : Slot Nat :=
  if s.state = .pending then { s with state := .idle } else s

/-- A slot that was found healthy while it was parked. Other slots stay as they are. -/
def passed (time : Instant) (s : Slot Nat) : Slot Nat :=
  if s.state = .pending then { s with state := .idle, lastCheck := some time } else s

/-- Unparking keeps the number of a slot. -/
theorem id_unparked (s : Slot Nat) : (unparked s).id = s.id := by
  unfold unparked
  split <;> rfl

/-- Passing a check keeps the number of a slot. -/
theorem id_passed (time : Instant) (s : Slot Nat) : (passed time s).id = s.id := by
  unfold passed
  split <;> rfl

/-- Unparking keeps the resource of a slot. -/
theorem resource_unparked (s : Slot Nat) : (unparked s).resource = s.resource := by
  unfold unparked
  split <;> rfl

/-- Passing a check keeps the resource of a slot. -/
theorem resource_passed (time : Instant) (s : Slot Nat) :
    (passed time s).resource = s.resource := by
  unfold passed
  split <;> rfl

/-- Unparking changes the state of a parked slot only. -/
theorem state_unparked (s : Slot Nat) :
    (unparked s).state = if s.state = .pending then .idle else s.state := by
  unfold unparked
  split <;> rfl

/-- Passing a check changes the state as unparking does. -/
theorem state_passed (time : Instant) (s : Slot Nat) :
    (passed time s).state = (unparked s).state := by
  unfold passed unparked
  split <;> rfl

/-- Putting a slot back does not break it. -/
theorem state_unparked_ne_invalid (s : Slot Nat) (h : s.state ≠ .invalid) :
    (unparked s).state ≠ .invalid := by
  rw [state_unparked]
  split
  · nofun
  · exact h

/-- Passing a check breaks no slot. -/
theorem state_passed_ne_invalid (time : Instant) (s : Slot Nat) (h : s.state ≠ .invalid) :
    (passed time s).state ≠ .invalid := by
  rw [state_passed]
  exact state_unparked_ne_invalid s h

/-- Put a parked slot back that was found healthy at this moment. -/
def reinstate (id resource : Nat) : PoolM Unit := do
  let time ← now
  change fun p =>
    ((p.onTable (·.modify id (passed time))).disown .examination id resource).note (.confirmed id)

/-- Put a parked slot back whose check gave no verdict, and trace why. -/
def unpark (id resource : Nat) (error : CheckError) : PoolM Unit := do
  change fun p => (p.onTable (·.modify id unparked)).disown .examination id resource
  trace .warn "health check produced no verdict"
    [("slot", .count id), ("error", .text error.text)]

/-- Check the resource of a parked slot, and put the slot back or destroy it. -/
def examine (nested : Op → PoolM Reply) (id resource : Nat) :
    PoolM (Except CheckError Verdict) := do
  let result ← probe nested resource .care
  match result with
  | .ok .healthy =>
    reinstate id resource
  | .ok (.unhealthy reason) =>
    let removed ← takeOutBroken .examination id resource .unhealthy
    emit (.healthCheckFailed id reason)
    destroy nested .unhealthy removed
  | .error error =>
    unpark id resource error
  pure result

/-- Whether a check gave no verdict. -/
def lacksVerdict : Except CheckError Verdict → Bool
  | .error _ => true
  | .ok _ => false

/-- Check the slots of a list that are idle when their turn comes, until the job is told to stop.
If failures are fatal, the first check without a verdict is the last one. The results come in the
order of the checks. -/
def examineAll (nested : Op → PoolM Reply) (fatal : Bool) :
    List Nat → PoolM (List (Except CheckError Verdict))
  | [] => pure []
  | id :: ids => do
    if ← read (·.careStops) then pure []
    else
      match ← park id with
      | none => examineAll nested fatal ids
      | some resource => do
        let result ← examine nested id resource
        letGo nested (.reference resource)
        if fatal && lacksVerdict result then pure [result]
        else
          let others ← examineAll nested fatal ids
          pure (result :: others)

/-- Bring the pool back to its target, or leave that to the count keeper if it runs. -/
def replenish (nested : Op → PoolM Reply) : PoolM (Except CreationError Nat) := do
  if ← read (·.delegates) then
    change fun p => { p with keeperSignal := p.keeperSignal.nudge }
    pure (.ok 0)
  else
    let missing ← read fun p => p.desired - p.table.live
    let granted ← reserve .healthCareJob missing
    fill nested .healthCareJob (·.careStops) granted

/-- How many checks found their resource unhealthy. -/
def countUnhealthy (results : List (Except CheckError Verdict)) : Nat :=
  results.countP fun
    | .ok (.unhealthy _) => true
    | _ => false

/-- The errors of the checks that gave no verdict. -/
def checkErrors (results : List (Except CheckError Verdict)) : List CheckError :=
  results.filterMap fun
    | .error error => some error
    | .ok _ => none

/-- Trace what a cycle did, if it did anything. -/
def traceCare (report : CareReport) : PoolM Unit := do
  if report ≠ {} then
    trace .trace "health-care cycle"
      [("checked", .count report.checked), ("unhealthy", .count report.unhealthy),
        ("expired", .count report.expired), ("replaced", .count report.replaced)]

/-- Report a cycle that has checked and replaced resources. It fails if a replacement or a check
has failed. -/
def concludeCare (results : List (Except CheckError Verdict)) (expired : Nat) :
    Except CreationError Nat → PoolM (Except CareFailure CareReport)
  | .error error => pure (.error (.replacement error))
  | .ok replaced => do
    let report : CareReport :=
      { checked := results.length, unhealthy := countUnhealthy results, expired, replaced }
    traceCare report
    match checkErrors results with
    | [] => pure (.ok report)
    | first :: others => pure (.error (.checks first (others.length + 1)))

/-- The body of a health-care cycle. -/
def runCare (nested : Op → PoolM Reply) : PoolM (Except CareFailure CareReport) := do
  if ← read (·.careStops) then pure (.ok {})
  else
    let expired ← evict nested
    let fatal ← read (·.config.careFailureFatal)
    let candidates ← read (·.table.idleIds)
    let results ← examineAll nested fatal candidates
    let removed := countUnhealthy results + expired
    let replacement ← if 0 < removed then replenish nested else pure (.ok 0)
    concludeCare results expired replacement

/-- One health-care cycle. A panic of a destructor is a failure of the cycle. -/
def careCycle (nested : Op → PoolM Reply) : PoolM (Except CareFailure CareReport) := do
  match ← attempt nested (runCare nested) with
  | .ok result => pure result
  | .error panic => pure (.error (.panicked panic.message))

end LeasePool.PoolM
