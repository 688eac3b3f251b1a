import LeasePool.Proofs.UserCode
import LeasePool.Proofs.Spec
import Mathlib.Logic.Relation

/-!
# Steps of a pool

A run of operations is a sequence of steps. A step is a part of the pool's own code that calls no
user code, or something that happens around it. It says what the running operations must hold to
take it. All that is preserved by steps is preserved by runs.
-/

namespace LeasePool

/-- Entries of the history that go with no change of the slots or of who owns them. -/
def Entry.IsRemark : Entry → Prop
  | .event (.resourceCreated ..) | .event (.resourceDestroyed ..) => False
  | .reserved .. | .factory _ | .check .. | .verdict .. | .confirmed _ => False
  | .handedOut .. | .freeing .. | .returned .. => False
  | .ended .. => False
  | _ => True

/-- Whether a check finds its resource broken. On access and on release only a healthy verdict will
do; the health-care job leaves a resource without a verdict alone. -/
def Checker.condemns : Checker → Except CheckError Verdict → Bool
  | .access, .ok .healthy | .release, .ok .healthy => false
  | .access, _ | .release, _ => true
  | .care, .ok (.unhealthy _) => true
  | .care, _ | .caller, _ => false

/-- A check that objects to nothing condemns nothing. -/
theorem Checker.condemns_eq_false {result : Except CheckError Verdict}
    (h : Verdict.objection? result = none) (checker : Checker) :
    checker.condemns result = false := by
  rw [(Verdict.objection?_eq_none_iff result).1 h]
  cases checker <;> rfl

/-- Whether a check lets its slot be marked as healthy. Only an acquisition and the health-care job
mark slots. -/
def Checker.approves : Checker → Except CheckError Verdict → Bool
  | .access, .ok .healthy | .care, .ok .healthy => true
  | _, _ => false

/-- The resource that is found broken by an entry: it has failed a check, or its lease was
invalidated and has ended. -/
def Entry.condemned? : Entry → Option Nat
  | .verdict resource checker result => if checker.condemns result then some resource else none
  | .returned _ resource true => some resource
  | _ => none

/-- What is found out about a resource, or about its slot. -/
inductive Finding
  | broken (resource : Nat)
  | healthy (resource : Nat)
  /-- The slot is marked as healthy. -/
  | marked (slot : Nat)

/-- The resource that a finding condemns, if it condemns one. -/
def Finding.broken? : Finding → Option Nat
  | broken resource => some resource
  | _ => none

/-- What is found out by an entry. -/
def Entry.finding? : Entry → Option Finding
  | .verdict resource checker result =>
    if checker.condemns result then some (.broken resource)
    else if checker.approves result then some (.healthy resource)
    else none
  | .returned _ resource true => some (.broken resource)
  | .confirmed slot => some (.marked slot)
  | _ => none

/-- What is found broken is part of what is found out. -/
theorem Entry.condemned?_eq (e : Entry) : e.condemned? = e.finding?.bind Finding.broken? := by
  cases e with
  | verdict resource checker result =>
    simp only [condemned?, finding?]
    split
    · rfl
    · split <;> rfl
  | returned slot resource invalidated => cases invalidated <;> rfl
  | _ => rfl

/-- Counters that are not tied to slots, leases or health checks. -/
def Counter.IsFree : Counter → Prop
  | .exhausted | .creationFailures => True
  | _ => False

/-- The resource whose destructor an operation makes panic, by the entry for its start. -/
def Entry.broken? : Entry → Option Nat
  | .began (.breakDestructor resource) => some resource
  | _ => none

/-- By a part of a history, every check of a resource by the health-care job has returned. -/
def Returned (resource : Nat) (history : List Record) : Prop :=
  ∀ middle c earlier, history = middle ++ c :: earlier → c.entry = .check resource .care →
    ∃ v ∈ middle, ∃ result, v.entry = .verdict resource .care result

/-- If the last thing that happened is the end of a check, all checks have returned. -/
theorem Returned.of_verdict {resource : Nat} {result : Except CheckError Verdict} {r : Record}
    (hr : r.entry = .verdict resource .care result) (history : List Record) :
    Returned resource (r :: history) := by
  intro middle c earlier he hc
  cases middle with
  | nil =>
    obtain ⟨rfl, -⟩ := List.cons.inj he
    exact absurd (hr.symm.trans hc) nofun
  | cons v middle =>
    obtain ⟨rfl, -⟩ := List.cons.inj he
    exact ⟨r, List.mem_cons_self, result, hr⟩

/-- What can be seen for sure when an operation has ended: after `close` the pool is closed. -/
def Sight.Completes (s : Sight) : Op → Prop
  | .close => s.closed = true
  | _ => True

namespace Pool

/-- What a running operation holds while it checks a resource. -/
def Backs (p : Pool) (resource : Nat) : Checker → Prop
  | .access => ∃ id, .slot .claim id resource ∈ p.holdings
  | .release => ∃ id, .slot .release id resource ∈ p.holdings
  | .care => ∃ id, .slot .examination id resource ∈ p.holdings
  | .caller => .reference resource ∈ p.holdings

/-- A part of a pool may call the factory. A background job must not have been told to stop. -/
def MayCreate (p : Pool) : Origin → Prop
  | .acquire => True
  | .countKeeper => p.keeperStops = false
  | .healthCareJob => p.careStops = false

instance (e : Entry) (call : HookCall) : Decidable (e = .hookPanicked call) :=
  decidable_of_iff ((match e with
      | .hookPanicked other => other == call
      | _ => false) = true) <| by
    cases e <;> simp

/-- A hook callback has ended with a panic. -/
def HasPanicked (p : Pool) (call : HookCall) : Prop :=
  ∃ r ∈ p.history, r.entry = .hookPanicked call

instance (p : Pool) (call : HookCall) : Decidable (p.HasPanicked call) :=
  inferInstanceAs (Decidable (∃ r ∈ p.history, r.entry = .hookPanicked call))

/-- The destructor of a resource was made to panic. -/
def Breaks (p : Pool) (resource : Nat) : Prop := ∃ r ∈ p.history, r.entry.broken? = some resource

instance (p : Pool) (resource : Nat) : Decidable (p.Breaks resource) :=
  inferInstanceAs (Decidable (∃ r ∈ p.history, r.entry.broken? = some resource))

/-- A resource was destroyed whose destructor was made to panic. -/
def HasCracked (p : Pool) : Prop := ∃ resource ∈ p.destroyed, p.Breaks resource

instance (p : Pool) : Decidable p.HasCracked :=
  inferInstanceAs (Decidable (∃ resource ∈ p.destroyed, p.Breaks resource))

/-- A failed health check of a slot was reported. -/
def HasFailed (p : Pool) (slot : Nat) : Prop :=
  ∃ r ∈ p.history, ∃ reason, r.entry = .event (.healthCheckFailed slot reason)

/-- Checks of a resource by the health-care job have returned, or there is no health check. -/
def HasConcluded (p : Pool) (resource : Nat) : Prop :=
  p.user.checkStyle = none ∨ Returned resource p.history

/-- A lease has a handle, with a name or held by a running operation. -/
def HasHandle (p : Pool) (lease : Nat) : Prop :=
  (∃ name, (name, lease) ∈ p.handles) ∨ .handle lease ∈ p.holdings

/-- What a panic may take from a running operation. A slot is lost with it only if the callback for
acquisitions panics, and a slot that has left the table only if a destructor does. -/
def MayLose (p : Pool) : Holding → Prop
  | .slot .handOver _ _ => p.HasPanicked .acquired
  | .slot _ _ _ | .product _ | .handle _ => False
  | .removed _ _ => p.HasCracked
  | .reservation | .reference _ => True

/-- The destruction of a slot that has left the table is recorded, and the slot is no longer
held. -/
def strikeOff (reason : DestroyReason) (s : Slot Nat) (p : Pool) : Pool :=
  ({ p with tally := p.tally.bump .destroyed }.note
    (.event (.resourceDestroyed s.id reason))).unhold (.removed reason s)

/-- A slot that has left the table is destroyed, and its resource with it unless something else
holds the resource. -/
def bury (reason : DestroyReason) (s : Slot Nat) (p : Pool) : Pool :=
  (p.strikeOff reason s).discard s.resource

/-- Burying a slot touches little more than striking it off. -/
theorem bury_eq (reason : DestroyReason) (s : Slot Nat) (p : Pool) :
    p.bury reason s = { p.strikeOff reason s with
      destroyed := (p.bury reason s).destroyed
      brittle := (p.bury reason s).brittle } :=
  discard_eq _ _

/-- One step of a pool. -/
inductive Step (p : Pool) : Pool → Prop
  /-- What stands around the slots changes: user code, the target, the signals of the jobs, the
  clock. User code stays public, its checks and destructors run as before, destructors panic only if
  they were made to, stopped jobs stay stopped, and no clock goes back. -/
  | ambient (user : UserCode) (desired : Nat) (keeperSignal careSignal : Signal)
      (depth : Nat) (traced : Bool) (brittle : List Nat) (clock : Clock)
      (hu : p.user.IsPublic → user.IsPublic) (hs : user.checkStyle = p.user.checkStyle)
      (hd : user.destructor = p.user.destructor)
      (hk : p.keeperSignal.isStopped = true → keeperSignal.isStopped = true)
      (hc : p.careSignal.isStopped = true → careSignal.isStopped = true)
      (hb : ∀ r ∈ brittle, r ∈ p.brittle ∨ p.Breaks r)
      (ht : p.clock.now ≤ clock.now) :
      p.Step { p with user, desired, keeperSignal, careSignal, depth, traced, brittle, clock }
  | remark (e : Entry) (he : e.IsRemark) : p.Step (p.note e)
  | ended (op : Op) (reply : Reply) (h : p.sight.Completes op) : p.Step (p.note (.ended op reply))
  | count (c : Counter) (n : UInt64) (hc : c.IsFree) : p.Step { p with tally := p.tally.add c n }
  /-- A factory call starts. -/
  | factory (origin : Origin) (h : p.MayCreate origin) : p.Step (p.note (.factory origin))
  /-- A health check starts. The health-care job checks only while nothing tells it to stop. -/
  | check (resource : Nat) (checker : Checker) (h : p.Backs resource checker)
      (hs : p.user.checkStyle ≠ none) (hc : checker = .care → p.careStops = false) :
      p.Step (p.note (.check resource checker))
  /-- A silent worker keeps the resource that it checks. -/
  | strand (resource : Nat) (checker : Checker) (h : p.Backs resource checker) :
      p.Step { p with stuck := resource :: p.stuck }
  /-- A health check ends. -/
  | conclude (resource : Nat) (checker : Checker) (result : Except CheckError Verdict)
      (h : p.Backs resource checker) : p.Step (PoolM.conclude resource checker result p).2
  | close : p.Step { p with closed := true }
  | invalidateLease (id : Nat) : p.Step (PoolM.invalidateLease id p).2
  /-- The factory makes a resource. -/
  | make : p.Step ({ p with made := p.made + 1 }.hold (.product p.made))
  | commit (resource : Nat) (state : SlotState) (origin : Origin)
      (hs : state = .idle ∨ state = .inUse) (hc : p.closed = false)
      (hp : .product resource ∈ p.holdings) (hr : .reservation ∈ p.holdings) :
      p.Step (PoolM.commit resource state origin p).2
  /-- Capacity is reserved. The jobs want what is missing to the target at that moment. -/
  | reserve (origin : Origin) (wanted : Nat)
      (hw : origin ≠ .acquire → wanted = p.desired - p.table.live) :
      p.Step (PoolM.reserve origin wanted p).2
  | unreserve (hr : .reservation ∈ p.holdings) :
      p.Step ((p.onTable (·.unreserve)).unhold .reservation)
  | claim (s : Slot Nat) (t : Table Nat) (h : p.table.claimIdle = some (s, t)) :
      p.Step ({ p with table := t }.hold (.slot .claim s.id s.resource))
  | confirm (id resource : Nat) (h : .slot .claim id resource ∈ p.holdings) :
      p.Step (PoolM.confirm id p).2
  | countAcquired (id resource : Nat) (h : .slot .claim id resource ∈ p.holdings) :
      p.Step (PoolM.countAcquired id resource p).2
  | beginLease (id resource : Nat) (h : .slot .handOver id resource ∈ p.holdings) :
      p.Step (PoolM.beginLease id resource p).2
  | nameHandle (name : String) (lease : Nat) (h : .handle lease ∈ p.holdings) :
      p.Step (PoolM.nameHandle name lease p).2
  | unnameHandle (name : String) : p.Step (PoolM.unnameHandle name p).2
  | cloneHandle (l : Lease) (h : l ∈ p.leases) : p.Step (p.hold (.handle l.id))
  /-- A handle is let go of that is not the last one of a lease. -/
  | letGoHandle (lease : Nat) (h : .handle lease ∈ p.holdings)
      (ho : (p.unhold (.handle lease)).HasHandle lease ∨ ∀ l ∈ p.leases, l.id ≠ lease) :
      p.Step (p.unhold (.handle lease))
  /-- The last handle of a lease is let go of. -/
  | endLease (l : Lease) (h : l ∈ p.leases) (hh : .handle l.id ∈ p.holdings)
      (ho : ¬(p.unhold (.handle l.id)).HasHandle l.id) :
      p.Step ({ p.unhold (.handle l.id) with leases := p.leases.erase l }.hold
        (.slot .release l.slot l.resource))
  | giveBack (lease : Lease) (h : .slot .release lease.slot lease.resource ∈ p.holdings) :
      p.Step (PoolM.giveBack lease p).2
  | giveUp (lease : Lease) (reason : DestroyReason)
      (h : .slot .release lease.slot lease.resource ∈ p.holdings) (hr : reason ≠ .expired) :
      p.Step (PoolM.giveUp lease reason p).2
  | park (id : Nat) (s : Slot Nat) (t : Table Nat) (h : p.table.claimForCheck id = some (s, t)) :
      p.Step ({ p with table := t }.hold (.slot .examination s.id s.resource))
  | reinstate (id resource : Nat) (h : .slot .examination id resource ∈ p.holdings)
      (hc : p.HasConcluded resource) : p.Step (PoolM.reinstate id resource p).2
  | unpark (id resource : Nat) (error : CheckError)
      (h : .slot .examination id resource ∈ p.holdings) (hc : p.HasConcluded resource) :
      p.Step (PoolM.unpark id resource error p).2
  /-- A slot that is claimed or parked is taken out as broken. -/
  | takeOutBroken (tenure : Tenure) (id resource : Nat) (reason : DestroyReason)
      (ht : tenure = .claim ∨ tenure = .examination ∧ p.HasConcluded resource)
      (h : .slot tenure id resource ∈ p.holdings) (hr : reason ≠ .expired) :
      p.Step (PoolM.takeOutBroken tenure id resource reason p).2
  | takeOutLru (n : Nat) : p.Step (PoolM.takeOut .surplus (·.removeIdleLru n) p).2
  | takeOutExpired (f : Slot Nat → Bool) : p.Step (PoolM.takeOutExpired f p).2
  | drain : p.Step (PoolM.takeOut .shutdown (·.drain) p).2
  /-- The destruction of a slot that has left the table is reported. An unhealthy one has failed a
  check. -/
  | destroyOne (reason : DestroyReason) (s : Slot Nat) (h : .removed reason s ∈ p.holdings)
      (hf : reason = .unhealthy → p.HasFailed s.id) : p.Step (p.bury reason s)
  /-- A caller's handle keeps a resource for the time of a check. -/
  | refer (l : Lease) (h : l ∈ p.leases) : p.Step (p.hold (.reference l.resource))
  /-- A resource alone is let go of. -/
  | letGo (h : Holding) (resource : Nat) (hk : h = .reference resource ∨ h = .product resource)
      (hh : h ∈ p.holdings) : p.Step ((p.unhold h).discard resource)
  /-- A panic takes the latest holding. -/
  | lose (h : Holding) (rest : List Holding) (resource : Nat) (hh : p.holdings = h :: rest)
      (hr : h.resource? = some resource) (hl : p.MayLose h) :
      p.Step ({ p with holdings := rest }.settle resource)

/-- A step that a cycle of a job takes itself. It leaves the slots alone, adds one, or takes out or
changes slots that are idle or parked. -/
inductive JobStep (p : Pool) : Pool → Prop
  | aside {q : Pool} (h : p.Step q) (hs : q.table.slots = p.table.slots) : p.JobStep q
  | commit (resource : Nat) (state : SlotState) (origin : Origin)
      (h : p.Step (PoolM.commit resource state origin p).2) :
      p.JobStep (PoolM.commit resource state origin p).2
  | takeOutLru (n : Nat) : p.JobStep (PoolM.takeOut .surplus (·.removeIdleLru n) p).2
  | takeOutExpired (f : Slot Nat → Bool) : p.JobStep (PoolM.takeOutExpired f p).2
  | park (id : Nat) (s : Slot Nat) (t : Table Nat) (h : p.table.claimForCheck id = some (s, t)) :
      p.JobStep ({ p with table := t }.hold (.slot .examination s.id s.resource))
  | reinstate (id resource : Nat) (h : .slot .examination id resource ∈ p.holdings)
      (hc : p.HasConcluded resource) : p.JobStep (PoolM.reinstate id resource p).2
  | unpark (id resource : Nat) (error : CheckError)
      (h : .slot .examination id resource ∈ p.holdings) (hc : p.HasConcluded resource) :
      p.JobStep (PoolM.unpark id resource error p).2
  | takeOutBroken (id resource : Nat) (reason : DestroyReason)
      (h : .slot .examination id resource ∈ p.holdings) (hc : p.HasConcluded resource)
      (hr : reason ≠ .expired) :
      p.JobStep (PoolM.takeOutBroken .examination id resource reason p).2

/-- The resources that were found broken, the latest first. -/
def condemned (p : Pool) : List Nat := p.history.filterMap (·.entry.condemned?)

/-- All that was found out about resources and slots, the latest first. -/
def findings (p : Pool) : List Finding := p.history.filterMap (·.entry.finding?)

/-- A step of a job that finds nothing out. -/
structure PlainStep (p q : Pool) : Prop where
  job : p.JobStep q
  findings : q.findings = p.findings

/-- A resource is found broken, and its slot leaves the table before user code runs again. The
health-care job has checked it. -/
inductive Weeds (p : Pool) : Pool → Prop
  | intro (id resource : Nat) (reason : String)
      (h : .slot .examination id resource ∈ p.holdings) :
      p.Weeds (PoolM.takeOutBroken .examination id resource .unhealthy
        (PoolM.conclude resource .care (.ok (.unhealthy reason)) p).2).2

/-- A resource is found broken when it is acquired or released, and its slot leaves the table before
user code runs again. -/
inductive Rejects (p : Pool) : Pool → Prop
  | access (id resource : Nat) (result : Except CheckError Verdict) (reason : String)
      (h : .slot .claim id resource ∈ p.holdings)
      (hr : Verdict.objection? result = some reason) :
      p.Rejects (PoolM.takeOutBroken .claim id resource .unhealthy
        ((PoolM.conclude resource .access result p).2.note
          (.event (.healthCheckFailed id reason)))).2
  | release (lease : Lease) (result : Except CheckError Verdict) (reason : String)
      (h : .slot .release lease.slot lease.resource ∈ p.holdings)
      (hr : Verdict.objection? result = some reason) :
      p.Rejects (PoolM.giveUp lease .unhealthy
        ((PoolM.conclude lease.resource .release result p).2.note
          (.event (.healthCheckFailed lease.slot reason)))).2
  | invalidated (lease : Lease) (h : .slot .release lease.slot lease.resource ∈ p.holdings) :
      p.Rejects (PoolM.giveUp lease .invalidated p).2

/-- A resource is found healthy by the health-care job, and its slot is marked before user code runs
again. Without a health check all slots are marked. -/
inductive Passes (p : Pool) : Pool → Prop
  | checked (id resource : Nat) (h : .slot .examination id resource ∈ p.holdings) :
      p.Passes
        (PoolM.reinstate id resource (PoolM.conclude resource .care (.ok .healthy) p).2).2
  | unchecked (id resource : Nat) (h : .slot .examination id resource ∈ p.holdings)
      (hs : p.user.checkStyle = none) : p.Passes (PoolM.reinstate id resource p).2

/-- A resource is found healthy when it is acquired, and its slot is marked before user code runs
again. -/
inductive Approves (p : Pool) : Pool → Prop
  | checked (id resource : Nat) (h : .slot .claim id resource ∈ p.holdings) :
      p.Approves (PoolM.confirm id (PoolM.conclude resource .access (.ok .healthy) p).2).2
  | unchecked (id resource : Nat) (h : .slot .claim id resource ∈ p.holdings)
      (hs : p.user.checkStyle = none) : p.Approves (PoolM.confirm id p).2

/-- A sequence of steps. -/
abbrev Steps : Pool → Pool → Prop := Relation.ReflTransGen Step

variable {p q : Pool}

/-- A step of a job is a step. -/
theorem JobStep.step (h : p.JobStep q) : p.Step q := by
  cases h with
  | aside h => exact h
  | commit _ _ _ h => exact h
  | takeOutLru n => exact .takeOutLru n
  | takeOutExpired f => exact .takeOutExpired f
  | park id s t h => exact .park id s t h
  | reinstate id resource h hc => exact .reinstate id resource h hc
  | unpark id resource error h hc => exact .unpark id resource error h hc
  | takeOutBroken id resource reason h hc hr =>
    exact .takeOutBroken .examination id resource reason (.inr ⟨rfl, hc⟩) h hr

/-- The steps of a job are steps. -/
theorem steps_of_jobSteps (h : Relation.ReflTransGen JobStep p q) : p.Steps q :=
  Relation.ReflTransGen.mono (fun _ _ => JobStep.step) _ _ h

/-- The health-care job destroys what it has found broken by steps of its own. -/
theorem Weeds.steps (h : p.Weeds q) : Relation.ReflTransGen JobStep p q := by
  obtain ⟨id, resource, reason, h⟩ := h
  have hconclude : p.JobStep (PoolM.conclude resource .care (.ok (.unhealthy reason)) p).2 :=
    .aside (.conclude resource .care _ ⟨id, h⟩) rfl
  exact .tail (.single hconclude)
    (.takeOutBroken id resource .unhealthy h (.inr (.of_verdict rfl p.history)) nofun)

/-- What is found broken on access or on release is taken out by steps. -/
theorem Rejects.steps (h : p.Rejects q) : p.Steps q := by
  cases h with
  | access id resource result reason h =>
    have hconclude : p.Step (PoolM.conclude resource .access result p).2 :=
      .conclude resource .access result ⟨id, h⟩
    have hreport : Entry.IsRemark (.event (.healthCheckFailed id reason)) := trivial
    exact .tail (.tail (.single hconclude) (.remark _ hreport))
      (.takeOutBroken .claim id resource .unhealthy (.inl rfl) h nofun)
  | release lease result reason h =>
    have hconclude : p.Step (PoolM.conclude lease.resource .release result p).2 :=
      .conclude lease.resource .release result ⟨lease.slot, h⟩
    have hreport : Entry.IsRemark (.event (.healthCheckFailed lease.slot reason)) := trivial
    exact .tail (.tail (.single hconclude) (.remark _ hreport)) (.giveUp lease .unhealthy h nofun)
  | invalidated lease h => exact .single (.giveUp lease .invalidated h nofun)

/-- The health-care job marks a slot by steps of its own. -/
theorem Passes.steps (h : p.Passes q) : Relation.ReflTransGen JobStep p q := by
  cases h with
  | checked id resource h =>
    have hconclude : p.JobStep (PoolM.conclude resource .care (.ok .healthy) p).2 :=
      .aside (.conclude resource .care _ ⟨id, h⟩) rfl
    exact .tail (.single hconclude)
      (.reinstate id resource h (.inr (.of_verdict rfl p.history)))
  | unchecked id resource h hs => exact .single (.reinstate id resource h (.inl hs))

/-- A slot is marked on access by steps. -/
theorem Approves.steps (h : p.Approves q) : p.Steps q := by
  cases h with
  | checked id resource h =>
    have hconclude : p.Step (PoolM.conclude resource .access (.ok .healthy) p).2 :=
      .conclude resource .access _ ⟨id, h⟩
    exact .tail (.single hconclude) (.confirm id resource h)
  | unchecked id resource h => exact .single (.confirm id resource h)

/-- Nothing is found broken where nothing is found out. -/
theorem condemned_of_findings (h : q.findings = p.findings) : q.condemned = p.condemned := by
  have hbroken : ∀ r : Pool, r.condemned = r.findings.filterMap Finding.broken? := by
    intro r
    rw [findings, List.filterMap_filterMap]
    exact congrArg (List.filterMap · r.history) (funext fun x => x.entry.condemned?_eq)
  rw [hbroken q, hbroken p, h]

namespace Step

theorem user (u : UserCode) (hu : p.user.IsPublic → u.IsPublic)
    (hs : u.checkStyle = p.user.checkStyle) (hd : u.destructor = p.user.destructor) :
    p.Step { p with user := u } :=
  .ambient u p.desired p.keeperSignal p.careSignal p.depth p.traced p.brittle p.clock
    hu hs hd id id (fun _ => .inl) (Nat.le_refl _)

theorem desired (n : Nat) : p.Step { p with desired := n } :=
  .ambient p.user n p.keeperSignal p.careSignal p.depth p.traced p.brittle p.clock
    id rfl rfl id id (fun _ => .inl) (Nat.le_refl _)

theorem keeperSignal (s : Signal) (h : p.keeperSignal.isStopped = true → s.isStopped = true) :
    p.Step { p with keeperSignal := s } :=
  .ambient p.user p.desired s p.careSignal p.depth p.traced p.brittle p.clock
    id rfl rfl h id (fun _ => .inl) (Nat.le_refl _)

theorem careSignal (s : Signal) (h : p.careSignal.isStopped = true → s.isStopped = true) :
    p.Step { p with careSignal := s } :=
  .ambient p.user p.desired p.keeperSignal s p.depth p.traced p.brittle p.clock
    id rfl rfl id h (fun _ => .inl) (Nat.le_refl _)

theorem depth (n : Nat) : p.Step { p with depth := n } :=
  .ambient p.user p.desired p.keeperSignal p.careSignal n p.traced p.brittle p.clock
    id rfl rfl id id (fun _ => .inl) (Nat.le_refl _)

theorem traced (b : Bool) : p.Step { p with traced := b } :=
  .ambient p.user p.desired p.keeperSignal p.careSignal p.depth b p.brittle p.clock
    id rfl rfl id id (fun _ => .inl) (Nat.le_refl _)

theorem brittle (rs : List Nat) (hb : ∀ r ∈ rs, r ∈ p.brittle ∨ p.Breaks r) :
    p.Step { p with brittle := rs } :=
  .ambient p.user p.desired p.keeperSignal p.careSignal p.depth p.traced rs p.clock
    id rfl rfl id id hb (Nat.le_refl _)

theorem clock (c : Clock) (h : p.clock.now ≤ c.now) : p.Step { p with clock := c } :=
  .ambient p.user p.desired p.keeperSignal p.careSignal p.depth p.traced p.brittle c
    id rfl rfl id id (fun _ => .inl) h

end Step

/-- No step changes the configuration. -/
theorem Step.config (h : p.Step q) : q.config = p.config := by
  cases h with
  | destroyOne => rw [bury_eq]; rfl
  | letGo => rw [discard_eq]; rfl
  | lose => rw [settle_eq]
  | _ => rfl

/-- No step changes how checks run. -/
theorem Step.checkStyle (h : p.Step q) : q.user.checkStyle = p.user.checkStyle := by
  cases h with
  | ambient _ _ _ _ _ _ _ _ _ hs => exact hs
  | destroyOne => rw [bury_eq]; rfl
  | letGo => rw [discard_eq]; rfl
  | lose => rw [settle_eq]
  | _ => rfl

/-- No step changes what destructors run. -/
theorem Step.destructor (h : p.Step q) : q.user.destructor = p.user.destructor := by
  cases h with
  | ambient _ _ _ _ _ _ _ _ _ _ hd => exact hd
  | destroyOne => rw [bury_eq]; rfl
  | letGo => rw [discard_eq]; rfl
  | lose => rw [settle_eq]
  | _ => rfl

/-- The factory only makes more resources. -/
theorem Step.made_le (h : p.Step q) : p.made ≤ q.made := by
  cases h with
  | make => exact Nat.le_succ _
  | destroyOne => exact Nat.le_of_eq (by rw [bury_eq]; rfl)
  | letGo => exact Nat.le_of_eq (by rw [discard_eq]; rfl)
  | lose => exact Nat.le_of_eq (by rw [settle_eq])
  | _ => exact Nat.le_refl _

/-- No step has to do with the reservations of callers. -/
theorem Step.reserved (h : p.Step q) : q.reserved = p.reserved := by
  cases h with
  | destroyOne => rw [bury_eq]; rfl
  | letGo => rw [discard_eq]; rfl
  | lose => rw [settle_eq]
  | _ => rfl

/-- A step adds entries to the history that show the pool before the step or after it. -/
theorem Step.history (h : p.Step q) : ∃ after before, q.history = after ++ (before ++ p.history) ∧
    (∀ r ∈ after, r.seen = q.sight) ∧ ∀ r ∈ before, r.seen = p.sight := by
  have hnone : ∀ s : Sight, ∀ r ∈ ([] : List Record), r.seen = s :=
    fun _ _ hr => absurd hr List.not_mem_nil
  cases h with
  | remark | ended | factory | check | conclude | reserve | commit | confirm | beginLease
  | reinstate | unpark | giveUp =>
    exact ⟨[_], [], rfl, List.forall_mem_singleton.2 rfl, hnone _⟩
  | giveBack =>
    exact ⟨[_], [_], rfl, List.forall_mem_singleton.2 rfl, List.forall_mem_singleton.2 rfl⟩
  | destroyOne =>
    rw [bury_eq]
    exact ⟨[], [_], rfl, hnone _, List.forall_mem_singleton.2 rfl⟩
  | letGo =>
    rw [discard_eq]
    exact ⟨[], [], rfl, hnone _, hnone _⟩
  | lose =>
    rw [settle_eq]
    exact ⟨[], [], rfl, hnone _, hnone _⟩
  | _ => exact ⟨[], [], rfl, hnone _, hnone _⟩

/-- A remark finds nothing out. -/
theorem findings_note_remark {e : Entry} (he : e.IsRemark) :
    (p.note e).findings = p.findings := by
  cases e with
  | verdict | returned | confirmed => exact he.elim
  | _ => rfl

/-- A check that neither finds its resource broken nor lets its slot be marked ends. -/
theorem findings_conclude {resource : Nat} {checker : Checker}
    {result : Except CheckError Verdict} (hc : checker.condemns result = false)
    (ha : checker.approves result = false) :
    (PoolM.conclude resource checker result p).2.findings = p.findings := by
  refine List.filterMap_cons_none ?_
  simp only [Entry.finding?, hc, ha]
  rfl

/-- A lease that was not invalidated is given back. -/
theorem findings_giveBack {lease : Lease} (h : lease.invalidated = false) :
    (PoolM.giveBack lease p).2.findings = p.findings := by
  refine List.filterMap_cons_none ?_
  rw [h]
  rfl

/-- The history only grows. -/
theorem Step.history_suffix (h : p.Step q) : p.history <:+ q.history := by
  obtain ⟨after, before, he, -, -⟩ := h.history
  exact ⟨after ++ before, by rw [he, List.append_assoc]⟩

/-- The history only grows, if it does so with every change. -/
theorem history_suffix_of_changes {R : Pool → Pool → Prop}
    (hR : ∀ {p q : Pool}, R p q → p.history <:+ q.history) (h : Relation.ReflTransGen R p q) :
    p.history <:+ q.history := by
  induction h with
  | refl => exact List.suffix_rfl
  | tail _ h ih => exact ih.trans (hR h)

/-- No record is ever forgotten. -/
theorem Steps.history_suffix (h : p.Steps q) : p.history <:+ q.history :=
  history_suffix_of_changes Step.history_suffix h

theorem Breaks.mono {resource : Nat} (h : p.Breaks resource)
    (hq : ∀ r ∈ p.history, r ∈ q.history) : q.Breaks resource := by
  obtain ⟨r, hr, he⟩ := h
  exact ⟨r, hq r hr, he⟩

/-- A report of a failed check stands. -/
theorem HasFailed.mono {slot : Nat} (h : p.HasFailed slot)
    (hq : ∀ r ∈ p.history, r ∈ q.history) : q.HasFailed slot := by
  obtain ⟨r, hr, he⟩ := h
  exact ⟨r, hq r hr, he⟩

/-- That a destructor has panicked stands in the history. -/
theorem HasCracked.mono (h : p.HasCracked) (hq : ∀ r ∈ p.history, r ∈ q.history)
    (hd : ∀ r ∈ p.destroyed, r ∈ q.destroyed) : q.HasCracked := by
  obtain ⟨r, hr, hb⟩ := h
  exact ⟨r, hd r hr, hb.mono hq⟩

/-- Settling a resource keeps the destroyed ones destroyed. -/
theorem destroyed_settle_subset (p : Pool) (resource : Nat) :
    ∀ r ∈ p.destroyed, r ∈ (p.settle resource).destroyed := by
  intro r hr
  unfold settle
  split
  · exact hr
  · exact List.mem_cons_of_mem _ hr

theorem destroyed_discard (p : Pool) (resource : Nat) :
    (p.discard resource).destroyed = (p.settle resource).destroyed := by
  unfold discard
  split
  · next h => rw [settle, if_pos h]
  · rfl

/-- What is destroyed stays destroyed. -/
theorem Step.destroyed_subset (h : p.Step q) : ∀ r ∈ p.destroyed, r ∈ q.destroyed := by
  intro r hr
  cases h with
  | destroyOne reason s =>
    rw [bury, destroyed_discard]
    exact destroyed_settle_subset _ _ r hr
  | letGo h resource =>
    rw [destroyed_discard]
    exact destroyed_settle_subset _ _ r hr
  | lose => exact destroyed_settle_subset _ _ r hr
  | _ => exact hr

/-- What is destroyed stays destroyed, if it does so with every change. -/
theorem destroyed_subset_of_changes {R : Pool → Pool → Prop}
    (hR : ∀ {p q : Pool}, R p q → p.destroyed ⊆ q.destroyed) (h : Relation.ReflTransGen R p q) :
    p.destroyed ⊆ q.destroyed := by
  induction h with
  | refl => exact List.Subset.refl _
  | tail _ h ih => exact List.Subset.trans ih (hR h)

/-- What was destroyed stays destroyed. -/
theorem Steps.destroyed_subset (h : p.Steps q) : p.destroyed ⊆ q.destroyed :=
  destroyed_subset_of_changes (fun h r => h.destroyed_subset r) h

/-- A destructor that has panicked has done so for good. -/
theorem Steps.hasCracked (h : p.Steps q) (hp : p.HasCracked) : q.HasCracked :=
  hp.mono (fun _ hr => h.history_suffix.subset hr) fun _ hr => h.destroyed_subset hr

/-- User code runs public operations only, and only destructors panic that were made to. -/
structure IsTame (p : Pool) : Prop where
  user : p.user.IsPublic
  brittle : ∀ r ∈ p.brittle, p.Breaks r

/-- A pool stays tame if its user code stays, and no other destructors will panic. -/
theorem IsTame.of_eq (hp : p.IsTame) (hu : q.user = p.user) (hb : ∀ r ∈ q.brittle, r ∈ p.brittle)
    (hq : ∀ r ∈ p.history, r ∈ q.history) : q.IsTame where
  user := hu ▸ hp.user
  brittle r hr := (hp.brittle r (hb r hr)).mono hq

theorem brittle_discard_subset (p : Pool) (resource : Nat) :
    ∀ r ∈ (p.discard resource).brittle, r ∈ p.brittle := by
  intro r hr
  unfold discard at hr
  split at hr
  · exact hr
  · exact List.mem_of_mem_erase hr

/-- Every step keeps a pool tame. -/
theorem Step.isTame (h : p.Step q) (hp : p.IsTame) : q.IsTame := by
  have hq : ∀ r ∈ p.history, r ∈ q.history := fun r hr => h.history_suffix.subset hr
  cases h with
  | ambient _ _ _ _ _ _ _ _ hu _ _ _ _ hb =>
    exact ⟨hu hp.user, fun r hr => (hb r hr).elim (hp.brittle r) id⟩
  | letGo h resource =>
    refine hp.of_eq ?_ (brittle_discard_subset (p.unhold h) resource) hq
    rw [discard_eq]
    rfl
  | destroyOne reason s =>
    rw [bury] at hq ⊢
    refine hp.of_eq ?_ (fun r hr => ?_) hq
    · rw [discard_eq]
      rfl
    · have hr := brittle_discard_subset _ _ r hr
      exact hr
  | lose =>
    rw [settle_eq] at hq ⊢
    exact hp.of_eq rfl (fun _ => id) hq
  | _ => exact hp.of_eq rfl (fun _ => id) hq

/-- Runs of public operations: the pool stays tame, and takes steps. -/
def publicRun : Discipline where
  valid := IsTame
  moves := Steps
  refl _ := .refl
  trans := .trans
  keep hp hs := by
    induction hs with
    | refl => exact hp
    | tail _ h ih => exact h.isTame ih

end Pool

end LeasePool
