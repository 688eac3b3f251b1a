import LeasePool.Metrics.Exposition
import LeasePool.Service.Jobs

/-!
# Requests to a service

A caller of a service acquires resources, asks about the pool, and closes it. Operations on handles
and on user code need no pool, all others are not available once the owner has let go of it.
-/

namespace LeasePool

/-- Whether an operation is one on the pool itself, and not on a handle or on user code. -/
def Op.needsPool : Op → Bool
  | .share .. | .drop _ | .dropOnThread _ | .invalidate _ | .inspect _ => false
  | .setCheck .. | .setCheckDefault _ | .pushFactory _ | .setFactoryDefault _ => false
  | .breakDestructor _ => false
  | _ => true

/-- What a caller of a service can ask for. -/
inductive Request
  | operate (op : Op)
  /-- Acquire a resource, and do not tell why it failed. -/
  | tryAcquire (handle : String)
  /-- Acquire a resource on a worker that never starts. -/
  | acquireCancelled
  | live
  | name
  | config
  | exposition (tags : List (String × String))
  | retire
  /-- Let the jobs work until a number of events of a kind have been reported. -/
  | await (kind : String) (count : Nat)
  /-- What the caller sees of the history and has not read. -/
  | log
  /-- The destroyed resources that the caller has not been told of. -/
  | destroyed

/-- The answer of a service. -/
inductive Answer
  | built
  | reply (r : Reply)
  /-- The budget of an operation ran out. -/
  | unfinished
  /-- The owner has let go of the pool. -/
  | unavailable
  | nothingAcquired
  | name (s : String)
  | config (c : Config)
  | exposition (lines : List String)
  | log (lines : List Line)
  | resources (rs : List Nat)

/-- Whether a request is refused before there is a pool. -/
def Request.needsPool : Request → Bool
  | operate op => op.needsPool
  | await .. | log | destroyed => false
  | _ => true

/-- What a caller who does not ask for the reason of a failure is told. -/
def Reply.withoutReason : Reply → Answer
  | .refused _ => .nothingAcquired
  | r => .reply r

namespace Service

/-- Run an operation on the pool of a service. -/
def operate (op : Op) (s : Service) : Option Reply × Service :=
  let (reply, pool) := s.pool.answer op
  (reply, { s with pool })

/-- The records that the caller has not read, newest first. -/
def unreadRecords (s : Service) : List Record :=
  s.pool.history.take (s.pool.history.length - s.recordsRead)

/-- What a view shows of the records that the caller has not read, oldest first. -/
def unreadLines (view : View) (s : Service) : List Line :=
  s.unreadRecords.reverse.filterMap (view.line? s.pool.name)

/-- The destroyed resources that the caller has not been told of, in increasing order. -/
def unreadDestroyed (s : Service) : List Nat :=
  (s.pool.destroyed.take (s.pool.destroyed.length - s.destroyedRead)).mergeSort

/-- The caller has read the whole history. -/
def markRecordsRead (s : Service) : Service :=
  { s with recordsRead := s.pool.history.length }

/-- The caller has been told of all destroyed resources. -/
def markDestroyedRead (s : Service) : Service :=
  { s with destroyedRead := s.pool.destroyed.length }

/-- The caller has read all there is. -/
def markRead (s : Service) : Service := s.markRecordsRead.markDestroyedRead

/-- Answer a request that the service can serve. -/
def serve (view : View) (s : Service) : Request → Answer × Service
  | .operate op =>
    let (reply, s) := s.operate op
    ((reply.map Answer.reply).getD .unfinished, s)
  | .tryAcquire handle =>
    let (reply, s) := s.operate (.acquire handle)
    ((reply.map Reply.withoutReason).getD .unfinished, s)
  | .acquireCancelled => (.reply (.refused .cancelled), s)
  | .live => (.reply (.count s.pool.status.live), s)
  | .name => (.name s.pool.name, s)
  | .config => (.config s.pool.config, s)
  | .exposition tags => (.exposition (Exposition.lines s.pool.snapshot s.pool.name tags), s)
  | .retire =>
    let (panic, s) := s.retire
    (.reply (match panic with
      | some p => .panicked p.message
      | none => .nothing), s)
  | .await kind count =>
    let (reached, s) := s.await kind count
    (.reply (.flag reached), s)
  | .log => (.log (s.unreadLines view), s.markRecordsRead)
  | .destroyed => (.resources s.unreadDestroyed, s.markDestroyedRead)

/-- Answer a request. -/
def answer (view : View) (request : Request) (s : Service) : Answer × Service :=
  if request.needsPool && !s.isOwned then (.unavailable, s) else s.serve view request

/-- What a request to a service answered and showed. -/
structure Report where
  answer : Answer
  lines : List Line
  /-- The resources destroyed meanwhile, in increasing order. -/
  destroyed : List Nat
  /-- The status of the pool, unless the owner has let go of it. -/
  status : Option Status

/-- The report on an answer: it shows what the caller has not read. -/
def report (view : View) (answer : Answer) (s : Service) : Report :=
  { answer
    lines := s.unreadLines view
    destroyed := s.unreadDestroyed
    status := if s.isOwned then some s.pool.status else none }

/-- Answer requests one after another, as long as the process lives. -/
def answers (view : View) : List Request → Service → List Answer × Service
  | [], s => ([], s)
  | request :: requests, s =>
    if s.aborted then ([], s)
    else
      let (answer, t) := s.answer view request
      let (others, u) := answers view requests t
      (answer :: others, u)

/-- Answer requests one after another, and report on each. -/
def reports (view : View) : List Request → Service → List Report
  | [], _ => []
  | request :: requests, s =>
    let (answer, t) := s.answer view request
    t.report view answer :: reports view requests t.markRead

/-- The report on a service that was just built, and on each of the requests to it. -/
def session (view : View) (requests : List Request) (s : Service) : List Report :=
  s.report view .built :: s.markRead.reports view requests

/-- How a process ended. -/
inductive Ending
  | aborted
  | exited (code : Nat)
deriving DecidableEq

/-- The end of the process of a service, and the events of its pool. -/
structure Exit where
  ending : Ending
  events : List Event

/-- The code that a process exits with after a panic. -/
def panicCode : Nat := 101

/-- Run a service through requests, and let go of it at the end. -/
def lifetime (view : View) (requests : List Request) (s : Service) : Exit :=
  let (_, s) := s.answers view requests
  let s := if s.aborted then s else s.retire.2
  { ending := if s.aborted then .aborted else .exited 0
    events := if view.eventsTraced then [] else eventsOf s.pool.history }

/-- Build a service in a process of its own, and run it through requests. -/
def process (view : View) (requests : List Request) : Except BuildFailure Service → Exit
  | .ok s => s.lifetime view requests
  | .error (.rejected _) => { ending := .exited 0, events := [] }
  | .error (.panicked _) => { ending := .exited panicCode, events := [] }

end Service

end LeasePool
