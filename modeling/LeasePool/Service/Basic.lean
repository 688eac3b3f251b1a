import LeasePool.Pool.Report
import LeasePool.Service.Job

/-!
# Services

A service is a pool with an owner and with the background jobs that its configuration asks for. It
is built from a configuration that has no flaw, and it is closed at most once: its jobs end, and
what is idle is destroyed. Handles outlive the owner's hold on the pool.
-/

namespace LeasePool

/-- A pool, its owner and its background jobs. -/
structure Service where
  pool : Pool
  /-- When the count keeper wakes up next by itself, if it lives. -/
  keeperDue : Option Instant := none
  /-- When the health-care job wakes up next by itself, if it lives. -/
  careDue : Option Instant := none
  /-- The owner has not closed the pool or let go of it. -/
  isOwned : Bool := true
  /-- A job failed whose failures are fatal. -/
  aborted : Bool := false
  /-- How much of the history the caller has read. -/
  recordsRead : Nat := 0
  /-- How many of the destroyed resources the caller has been told of. -/
  destroyedRead : Nat := 0

/-- Why a service could not be built. -/
inductive BuildFailure
  | rejected (flaw : ConfigFlaw)
  | panicked (p : Panic)

namespace Service

/-- The name of a pool that was given none. -/
def defaultName : String := "respool"

/-- The pool of a service whose configuration has been accepted. -/
def newPool (name : String) (config : Config) (user : UserCode) : Pool :=
  { Pool.new name config user with delegates := config.keeperEnabled }.note
    (.trace ⟨.info, "resource pool created",
      [("pool", .text name), ("min", .count config.minCount),
        ("desired", .count config.desiredCount), ("max", .count config.maxCount),
        ("count_keeper", .flag config.keeperEnabled), ("health_care", .flag config.careEnabled)]⟩)

/-- The start of a job, if the configuration asks for it. -/
def started? (pool : Pool) (job : Job) : Option Instant :=
  if job.isEnabled pool.config then job.start? pool.config pool.clock.now else none

/-- Build a service: check its configuration, and start its jobs. -/
def build? (name : String) (config : Config) (user : UserCode) : Except BuildFailure Service :=
  match config.admit? user.checkStyle.isSome with
  | .error flaw => .error (.rejected flaw)
  | .ok () =>
    match config.jobs.findSome? (·.startPanic? name) with
    | some panic => .error (.panicked panic)
    | none =>
      let pool := newPool name config user
      .ok { pool, keeperDue := started? pool .keeper, careDue := started? pool .care }

end Service

namespace PoolM

/-- The trace record of a job that has died. -/
def obituary (job : Job) : TraceRecord :=
  ⟨.error, "background job panicked", [("job", .text job.name)]⟩

/-- Wait for the jobs to end, and trace those that have died. -/
def joinJobs : PoolM Unit := change fun p =>
  let dead := p.config.jobs.filter (·.isDoomed p.config)
  dead.foldl (fun p job => p.note (.trace (obituary job))) p

/-- Close a pool, end its jobs and destroy what is idle. A closed pool stays as it is. -/
def shutDown (nested : Op → PoolM Reply) : PoolM Unit := do
  if ← read (·.closed) then pure ()
  else
    change fun p =>
      { p with
        closed := true
        keeperSignal := p.keeperSignal.stop
        careSignal := p.careSignal.stop }
    joinJobs
    let slots ← takeOut .shutdown (·.drain)
    destroy nested .shutdown slots
    trace .info "resource pool closed" []

end PoolM

namespace Service

/-- The owner closes the pool and lets go of it; a panic of a destructor is the answer. -/
def retire (s : Service) : Option Panic × Service :=
  let after (pool : Pool) : Service :=
    { s with pool, keeperDue := none, careDue := none, isOwned := false }
  let nested := PoolM.run Pool.budget
  match PoolM.attempt nested (PoolM.shutDown nested) s.pool with
  | (.done (.error panic), pool) => (some panic, after pool)
  | (_, pool) => (none, after pool)

end Service

end LeasePool
