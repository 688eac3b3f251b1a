import LeasePool.Fault

/-!
# Health verdicts

A health check that runs gives a verdict at once, or leaves it pending on a worker that may answer,
go away, or stay silent until the timeout.
-/

namespace LeasePool

/-- The outcome of a health check that managed to run. -/
inductive Verdict
  | healthy
  | unhealthy (reason : String)
deriving DecidableEq

namespace Verdict

/-- Whether a verdict lets a resource live. -/
def isHealthy : Verdict → Bool
  | healthy => true
  | unhealthy _ => false

/-- The verdict of a check that only answers yes or no. -/
def ofBool (answer : Bool) : Verdict :=
  if answer then healthy else unhealthy "health check returned false"

end Verdict

/-- What a started health check leaves to wait for. -/
inductive Probe
  | ready (result : Except CheckError Verdict)
  /-- A worker has answered, or will before the timeout. -/
  | answered (result : Except CheckError Verdict)
  /-- The worker went away without an answer. -/
  | abandoned
  /-- The worker does not answer before the timeout. -/
  | silent

/-- Whether a worker keeps the resource and stays silent. -/
def Probe.isSilent : Probe → Bool
  | silent => true
  | _ => false

/-- Wait for the verdict of a started check, at most `limit` for a silent worker. -/
def Probe.wait (limit : Duration) : Probe → Except CheckError Verdict
  | ready result | answered result => result
  | abandoned => .error .abandoned
  | silent => .error (.timedOut limit)

/-- A timeout counts as an unhealthy verdict; the other errors stand. -/
def Verdict.settle : Except CheckError Verdict → Except CheckError Verdict
  | .error (.timedOut limit) => .ok (.unhealthy ("no verdict within " ++ limit.text))
  | result => result

/-- Why a result is no proof of health, or nothing if it is one. -/
def Verdict.objection? : Except CheckError Verdict → Option String
  | .ok .healthy => none
  | .ok (.unhealthy reason) => some reason
  | .error error => some error.text

/-- Only a healthy verdict leaves nothing to object to. -/
theorem Verdict.objection?_eq_none_iff (r : Except CheckError Verdict) :
    Verdict.objection? r = none ↔ r = .ok .healthy := by
  cases r with
  | error e => simp [Verdict.objection?]
  | ok v => cases v <;> simp [Verdict.objection?]

end LeasePool
