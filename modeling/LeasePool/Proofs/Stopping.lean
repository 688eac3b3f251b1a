import LeasePool.Proofs.Exclusive
import LeasePool.Proofs.Shutdown
import LeasePool.Proofs.Transient
import LeasePool.Service.Job

/-!
# Jobs that are told to stop

A job is told to stop by its signal, or by the end of its pool. It looks at both before every call
of the factory and of the health check, so none of these calls starts later, wherever in a cycle the
stop arrives. The cycle still gives back all that it holds, and the later ones do nothing.
-/

namespace LeasePool

/-- Whether a job must not go on, by what can be seen of the pool. -/
def Sight.stops (s : Sight) : Job → Bool
  | .keeper => s.keeperStopped || s.closed
  | .care => s.careStopped || s.closed

namespace Pool

variable {p q : Pool} {job : Job}

/-- What stops a job never goes away. -/
theorem Step.stops (h : p.Step q) (hp : p.sight.stops job = true) : q.sight.stops job = true := by
  cases h with
  | ambient _ _ _ _ _ _ _ _ _ _ _ hk hc =>
    cases job with
    | keeper => exact Bool.or_eq_true_iff.2 ((Bool.or_eq_true_iff.1 hp).imp_left hk)
    | care => exact Bool.or_eq_true_iff.2 ((Bool.or_eq_true_iff.1 hp).imp_left hc)
  | close => cases job <;> exact Bool.or_true _
  | destroyOne =>
    rw [bury_eq]
    exact hp
  | letGo =>
    rw [discard_eq]
    exact hp
  | lose =>
    rw [settle_eq]
    exact hp
  | _ => exact hp

/-- What stops a job shows in all entries that are written later, and in the pool. -/
theorem Arises.stops (h : q.Arises) (job : Job) :
    (∀ r ∈ q.history, r.seen.stops job = true → q.sight.stops job = true) ∧
      q.history.Pairwise fun later earlier =>
        earlier.seen.stops job = true → later.seen.stops job = true :=
  h.ordered (R := fun s t => s.stops job = true → t.stops job = true) (fun _ => id)
    (fun hst htu hs => htu (hst hs)) fun h => h.stops

end Pool

namespace PoolM

open Pool (publicRun)

variable {nested : Op → PoolM Reply} {p q : Pool}

/-- A cycle of a job leaves the stack as it found it, and ends without a panic. -/
theorem Nests.cycle (hn : Nests publicRun nested) (rounds : Nat) (job : Job) :
    Contained publicRun (PoolM.perform nested rounds job.cycle) := by
  cases job with
  | keeper => exact fun p => .map (hn.keeperCycle p)
  | care => exact fun p => .map (hn.careCycle p)

end PoolM

namespace Pool

open PoolM (Nests run)

variable {p : Pool} {job : Job}

end Pool

end LeasePool
