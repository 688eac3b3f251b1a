import LeasePool.Pool.Ownership

/-!
# Calls of user code

The pool calls the factory, the health check and the hook. Each call first runs its operations on
the pool, and then ends with its outcome.
-/

namespace LeasePool.PoolM

/-- Move the target. The pool clamps it to its bounds, which must not cross. -/
def setDesired (wanted : Nat) : PoolM Nat := do
  let config ← read (·.config)
  let target ← ofExcept (clamp config.minCount config.maxCount wanted)
  change fun p => { p with desired := target }
  pure target

/-- Call the factory. A new resource gets the next number, and the running operation holds it. -/
def callFactory (nested : Op → PoolM Reply) (origin : Origin) :
    PoolM (Except CreationError Nat) := do
  change (·.note (.factory origin))
  let behaviour ← update fun p =>
    let (behaviour, factory) := p.user.factory.next
    (behaviour, { p with user := { p.user with factory } })
  runInside nested behaviour.during
  match behaviour.outcome with
  | .success => update fun p => (.ok p.made, { p with made := p.made + 1 }.hold (.product p.made))
  | .failure error => pure (.error error)
  | .panic panic => raise panic

/-- What a check of a resource leaves to wait for. A panic on a worker loses the answer, and a
worker that stays silent keeps the resource. -/
def examined (style : CheckStyle) (resource : Nat) : Examination → PoolM Probe
  | .answer result => pure (match style with
    | .direct => .ready result
    | .onWorker => .answered result)
  | .silence => do
    if style = .onWorker then change fun p => { p with stuck := resource :: p.stuck }
    pure .silent
  | .abandonment => pure .abandoned
  | .panic panic => match style with
    | .direct => raise panic
    | .onWorker => pure .abandoned

/-- What the health check does on a call for a resource. -/
def answerCheck (nested : Op → PoolM Reply) (style : CheckStyle) (resource : Nat) :
    PoolM Probe := do
  let behaviour ← update fun p =>
    let (behaviour, user) := p.user.nextCheck resource
    (behaviour, { p with user })
  runInside nested behaviour.during
  examined style resource behaviour.outcome

/-- Call the health check on a resource. -/
def callCheck (nested : Op → PoolM Reply) (style : CheckStyle) (resource : Nat)
    (checker : Checker) : PoolM Probe := do
  change (·.note (.check resource checker))
  answerCheck nested style resource

/-- The counters after a health check. A timeout counts as an unhealthy verdict. -/
def tallied (t : Tally) : Except CheckError Verdict → Tally
  | .ok .healthy => t.bump .healthChecks
  | .ok (.unhealthy _) => (t.bump .healthChecks).bump .healthCheckFailures
  | .error _ => t.bump .healthCheckErrors

/-- Count the result of a health check and write it down. -/
def conclude (resource : Nat) (checker : Checker) (result : Except CheckError Verdict) :
    PoolM Unit :=
  change fun p =>
    { p with tally := tallied p.tally result }.note (.verdict resource checker result)

/-- What a started check leaves to wait for. A panic of the check is an error of it. -/
def started : Except Panic Probe → Probe
  | .ok probe => probe
  | .error panic => .ready (.error (.ofPanic panic))

/-- Wait for the verdict of a started check. A silent worker is waited for until the timeout. -/
def awaitVerdict (resource : Nat) (checker : Checker) (probe : Probe) :
    PoolM (Except CheckError Verdict) := do
  let limit ← read (·.config.checkTimeout)
  if probe.isSilent then change (·.pass limit)
  let result := Verdict.settle (probe.wait limit)
  conclude resource checker result
  pure result

/-- Check a resource and wait for the verdict. A pool without a health check finds all healthy. -/
def probe (nested : Op → PoolM Reply) (resource : Nat) (checker : Checker) :
    PoolM (Except CheckError Verdict) := do
  match ← read (·.user.checkStyle) with
  | none => pure (.ok .healthy)
  | some style =>
    let ending ← attempt nested (callCheck nested style resource checker)
    awaitVerdict resource checker (started ending)

/-- A load-scaling hook: move the target if the policy asks for it, and trace moves made on
maintenance. -/
def followPolicy (policy : LoadScaling) (call : HookCall) : PoolM Unit := do
  let status ← read (·.status)
  let target ← read (·.desired)
  match policy.request call status target with
  | none => pure ()
  | some wanted =>
    let applied ← setDesired wanted
    match policy.onMaintenance status with
    | some direction =>
      if call = .maintenance ∧ applied ≠ target then
        change fun p => p.note (.trace
          ⟨.debug, direction.message,
            [("load", .ratio (LoadScaling.load status)), ("desired", .count applied)]⟩)
      else pure ()
    | none => pure ()

/-- Set the target that a hook routine wants, if it wants one. -/
def aim : Option Nat → PoolM Unit
  | some wanted => do
    let applied ← setDesired wanted
    change (·.note (.applied applied))
  | none => pure ()

/-- A hook routine: note what it sees, set the target it wants, run its operations, and end. -/
def followRoutine (nested : Op → PoolM Reply) (call : HookCall) (routine : HookRoutine) :
    PoolM Unit := do
  let (behaviour, routine) := routine.next
  change fun p =>
    { p.note (.noted call p.status) with
      user := { p.user with hook := p.user.hook.withRoutine routine call } }
  aim behaviour.outcome.wanted
  runInside nested behaviour.during
  match behaviour.outcome.panic with
  | some panic => raise panic
  | none => pure ()

/-- What remains of a call of the hook after its routine: its policy, if it has one. -/
def followScaling (scaling : Option LoadScaling) (call : HookCall) : PoolM Unit :=
  match scaling with
  | some policy => followPolicy policy call
  | none => pure ()

/-- What the hook of a pool does on a call: its routine runs first, and its policy sees what the
routine left. -/
def follow (nested : Op → PoolM Reply) (call : HookCall) : PoolM Unit := do
  let hook ← read (·.user.hook)
  match hook.routine? call with
  | some routine => followRoutine nested call routine
  | none => pure ()
  followScaling hook.scaling call

/-- Call the hook. -/
def callHook (nested : Op → PoolM Reply) (call : HookCall) : PoolM Unit := do
  change (·.note (.hook call))
  onPanic (·.note (.hookPanicked call)) (follow nested call)

end LeasePool.PoolM
