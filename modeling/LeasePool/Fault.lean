import LeasePool.Config

/-!
# Faults

What can go wrong in a pool, by cause, and one text for each cause. An error that was brought
about by another one also lists the texts of the errors below it, outermost first.
-/

namespace LeasePool

/-- A panic of user code. Its payload need not be text. -/
structure Panic where
  payload : Option String
deriving DecidableEq, Inhabited

namespace Panic

/-- A panic whose payload is a text. -/
def ofText (text : String) : Panic := ⟨some text⟩

/-- The text of the payload, or a fixed one if it is no text. -/
def message (p : Panic) : String := p.payload.getD "unknown panic payload"

end Panic

/-- A factory call that produced no resource. -/
structure CreationError where
  message : String
  /-- Texts of the errors that led to this one, outermost first. -/
  causes : List String := []
deriving DecidableEq, Inhabited

namespace CreationError

/-- The text of a failed creation. -/
def text (e : CreationError) : String := "Resource creation failed: " ++ e.message

/-- The error of a background job whose factory call panicked. -/
def ofPanic (p : Panic) : CreationError := { message := "factory panicked: " ++ p.message }

/-- An error brought about by another failed factory call. -/
def wrapping (message : String) (inner : CreationError) : CreationError :=
  { message, causes := inner.text :: inner.causes }

end CreationError

/-- A health check that produced no verdict. -/
inductive CheckError
  | failed (message : String) (causes : List String)
  | abandoned
  | panicked (message : String)
  | timedOut (limit : Duration)
deriving DecidableEq

namespace CheckError

/-- The text of a check that failed to run. -/
def text : CheckError → String
  | failed message _ => "Health check failed to run: " ++ message
  | abandoned => "Health check worker went away before reporting a verdict"
  | panicked message => "Health check panicked: " ++ message
  | timedOut limit => "Health check exceeded its timeout of " ++ limit.text

/-- What a failed check names as its causes, the nearest first. -/
def causes : CheckError → List String
  | failed _ causes => causes
  | _ => []

/-- A panic of the check, as its failure. -/
def ofPanic (p : Panic) : CheckError := panicked p.message

end CheckError

/-- An error returned to a direct caller of a pool. -/
inductive PoolError
  | exhausted (inUse max : Nat)
  | invalidConfiguration (reason : String)
  | workerNotStarted (job cause : String)
  | closed
  | cancelled
deriving DecidableEq

namespace PoolError

/-- The text of a refusal. -/
def text : PoolError → String
  | exhausted inUse max =>
    s!"Pool exhausted - {inUse} of {max} resources in use and none could be supplied"
  | invalidConfiguration reason => "Invalid pool configuration: " ++ reason
  | workerNotStarted job _ => s!"Failed to start the {job} worker thread"
  | closed => "Pool has been shut down"
  | cancelled => "Operation was cancelled"

/-- What a refusal names as its causes. -/
def causes : PoolError → List String
  | workerNotStarted _ cause => [cause]
  | _ => []

end PoolError

/-- A keeper cycle that could not finish. -/
inductive KeeperFailure
  | creation (error : CreationError)
  | panicked (message : String)
deriving DecidableEq

namespace KeeperFailure

/-- The text of a failed cycle of the count keeper. -/
def text : KeeperFailure → String
  | creation error => error.text
  | panicked message => "count keeper cycle panicked: " ++ message

/-- What a failed cycle of the count keeper names as its causes. -/
def causes : KeeperFailure → List String
  | creation error => error.causes
  | panicked _ => []

end KeeperFailure

/-- A health-care cycle that could not finish, or in which checks gave no verdict. -/
inductive CareFailure
  /-- The first check without a verdict, and how many there were. -/
  | checks (first : CheckError) (count : Nat)
  | replacement (error : CreationError)
  | panicked (message : String)
deriving DecidableEq

namespace CareFailure

/-- The text of a failed cycle of the health-care job. -/
def text : CareFailure → String
  | checks first count => first.text ++ s!" ({count} check(s) failed to run this cycle)"
  | replacement error => error.text
  | panicked message => "health-care cycle panicked: " ++ message

/-- What a failed cycle of the health-care job names as its causes: the first failed check, or the
causes of the failed creation. -/
def causes : CareFailure → List String
  | checks first _ => first.text :: first.causes
  | replacement error => error.causes
  | panicked _ => []

end CareFailure

end LeasePool
