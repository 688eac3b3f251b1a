import LeasePool.Pool.Operation
import LeasePool.Config

/-!
# The background jobs of a service

A configuration asks for some of two jobs. Each runs on a thread of its own, which has a name, and
runs one cycle whenever a wait of its interval ends. The keeper runs its first cycle before it
waits, the health-care job waits first. A job that cannot wait for its interval dies of a panic.
-/

namespace LeasePool

/-- A background job. -/
inductive Job
  | keeper
  | care
deriving DecidableEq

namespace Job

/-- Both jobs, in the order in which they start. -/
def all : List Job := [keeper, care]

/-- The name of a job. -/
def name : Job → String
  | keeper => "count-keeper"
  | care => "health-care"

/-- Whether a configuration asks for a job. -/
def isEnabled (c : Config) : Job → Bool
  | keeper => c.keeperEnabled
  | care => c.careEnabled

/-- How long a job sleeps. -/
def interval (c : Config) : Job → Duration
  | keeper => c.keeperInterval
  | care => c.checkInterval

/-- Whether a failed cycle of a job ends the process. -/
def isFatal (c : Config) : Job → Bool
  | keeper => c.keeperFailureFatal
  | care => c.careFailureFatal

/-- The operation that runs one cycle of a job. -/
def cycle : Job → Op
  | keeper => .keeper
  | care => .care

/-- When a job that goes to sleep wakes up by itself; never if it dies. -/
def wakeUp? (c : Config) (now : Instant) (job : Job) : Option Instant :=
  (now.deadline (job.interval c)).toOption

/-- When a job that starts now wakes up by itself. The keeper is awake. -/
def start? (c : Config) (now : Instant) : Job → Option Instant
  | keeper => some now
  | care => care.wakeUp? c now

/-- Whether the first wait of a job is its end. -/
def isDoomed (c : Config) (job : Job) : Bool := (job.wakeUp? c 0).isNone

/-- The name of the thread of a job. -/
def threadName (pool : String) (job : Job) : String := pool ++ "-" ++ job.name

/-- The panic of a job that cannot start: the name of a thread holds no NUL character. The text
tells where the first one is, and the bytes of the name. -/
def startPanic? (pool : String) (job : Job) : Option Panic :=
  let bytes := (job.threadName pool).toUTF8.toList.map UInt8.toNat
  (bytes.idxOf? 0).map fun position =>
    .ofText ("thread name may not contain interior null bytes: NulError(" ++ toString position ++
      ", [" ++ ", ".intercalate (bytes.map toString) ++ "])")

end Job

/-- The jobs that a configuration asks for. -/
def Config.jobs (c : Config) : List Job := Job.all.filter (·.isEnabled c)

end LeasePool
