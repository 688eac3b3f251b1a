import LeasePool.Service.Basic

/-!
# Background jobs at work

Each job sleeps on its signal until its next turn is due or it is nudged, runs one cycle, and sleeps
again. Here the turns of the jobs of one service come one after another, in the order in which they
are due, and no time passes but while all jobs sleep. A failed cycle is reported as an event, and
ends the process if the configuration says that such failures are fatal.
-/

namespace LeasePool

/-- The event that reports a failed cycle. -/
def Reply.failure? : Reply → Option Event
  | .keeper (.error failure) => some (.countKeeperFailure failure.text)
  | .care (.error failure) => some (.healthCareJobFailure failure.text)
  | _ => none

namespace Service

/-- The signal that a job sleeps on. -/
def signal (s : Service) : Job → Signal
  | .keeper => s.pool.keeperSignal
  | .care => s.pool.careSignal

/-- The service with another signal for a job. -/
def withSignal (signal : Signal) (s : Service) : Job → Service
  | .keeper => { s with pool := { s.pool with keeperSignal := signal } }
  | .care => { s with pool := { s.pool with careSignal := signal } }

/-- When a job wakes up next by itself, if it lives. -/
def due? (s : Service) : Job → Option Instant
  | .keeper => s.keeperDue
  | .care => s.careDue

/-- The service in which a job wakes up at another time, or never. -/
def withDue (due : Option Instant) (s : Service) : Job → Service
  | .keeper => { s with keeperDue := due }
  | .care => { s with careDue := due }

/-- When a job has its next turn: now if it is nudged. A dead or stopped job has none. -/
def turn? (s : Service) (job : Job) : Option Instant :=
  (s.due? job).bind fun due =>
    if (s.signal job).isStopped then none
    else if (s.signal job).isNudged then some s.pool.clock.now
    else some (max due s.pool.clock.now)

/-- The job that has the next turn, and when. Of two jobs at one instant the keeper comes first. -/
def next? (s : Service) : Option (Job × Instant) :=
  match s.turn? .keeper, s.turn? .care with
  | some k, some c => some (if k ≤ c then (.keeper, k) else (.care, c))
  | some k, none => some (.keeper, k)
  | none, some c => some (.care, c)
  | none, none => none

/-- Let time pass until an instant, if it has not come yet. -/
def sleepUntil (time : Instant) (s : Service) : Service :=
  { s with pool := s.pool.pass (s.pool.clock.now.elapsed time) }

/-- Report a failed cycle of a job. -/
def fail (job : Job) (event : Event) (s : Service) : Service :=
  { s with
    pool := s.pool.note (.event event)
    aborted := s.aborted || job.isFatal s.pool.config }

/-- The turn of a job: it wakes up, takes the nudge if there is one, runs a cycle and sleeps. Its
thread is not traced. -/
def takeTurn (job : Job) (time : Instant) (s : Service) : Service :=
  let s := s.sleepUntil time
  let (_, signal) := (s.signal job).look time s.pool.clock.now
  let s := s.withSignal signal job
  let (reply, pool) := { s.pool with traced := false }.answer job.cycle
  let s := { s with pool }
  let s := match reply.bind Reply.failure? with
    | some event => s.fail job event
    | none => s
  let s := { s with pool := { s.pool with traced := true } }
  s.withDue (job.wakeUp? s.pool.config s.pool.clock.now) job

/-- Whether a job of a service has been nudged and has not had its turn yet. -/
def isNudged (s : Service) : Bool :=
  [Job.keeper, .care].any fun job => (s.turn? job).isSome && (s.signal job).isNudged

/-- Let the jobs take their turns until a condition holds and no job is nudged, as far as turns come
before a deadline. The answer is whether the condition holds. -/
def runUntil (condition : Service → Bool) (deadline : Instant) : Nat → Service → Bool × Service
  | 0, s => (condition s, s)
  | turns + 1, s =>
    if condition s && !s.isNudged then (true, s)
    else if s.aborted then (false, s)
    else
      match s.next? with
      | some (job, time) =>
        if time ≤ deadline then runUntil condition deadline turns (s.takeTurn job time)
        else (condition s, s.sleepUntil deadline)
      | none => (condition s, s.sleepUntil deadline)

/-- The events of records that come newest first, in the order in which they happened. -/
def eventsOf (records : List Record) : List Event :=
  records.reverse.filterMap fun r =>
    match r.entry with
    | .event e => some e
    | _ => none

/-- How many events of a kind the pool has reported. -/
def countEvents (kind : String) (s : Service) : Nat :=
  s.pool.history.countP fun r =>
    match r.entry with
    | .event e => e.kind == kind
    | _ => false

/-- How long a caller waits for events. -/
def patience : Duration := .ofSeconds 10

/-- How many turns of the jobs a caller waits for at most. -/
def turnLimit : Nat := 100000

/-- Let the jobs work until a number of events of a kind have been reported. -/
def await (kind : String) (count : Nat) (s : Service) : Bool × Service :=
  s.runUntil (fun s => decide (count ≤ s.countEvents kind))
    (s.pool.clock.now + patience.nanos) turnLimit

end Service

end LeasePool
