import LeasePool.Proofs.Unwinding
import LeasePool.Proofs.Spec

/-!
# Quiet user code

User code that runs no operations on its pool can fail, panic or be slow, but it cannot touch a
slot. Calls of it are mild: they leave the slots of the table alone. So do all actions of the pool
that only reserve capacity, count, report or let go of resources.
-/

namespace LeasePool

namespace Pool

variable {p q r : Pool}

/-- The callback for acquisitions has not panicked since an earlier moment. -/
def Unmarked (p q : Pool) : Prop :=
  ∃ new, q.history = new ++ p.history ∧ ∀ r ∈ new, r.entry ≠ .hookPanicked .acquired

theorem Unmarked.of_eq (hh : q.history = p.history) : p.Unmarked q :=
  ⟨[], hh, fun _ hr => absurd hr List.not_mem_nil⟩

/-- What is not marked in either stretch is not marked. -/
theorem Unmarked.trans (h : p.Unmarked q) (h' : q.Unmarked r) : p.Unmarked r := by
  obtain ⟨new, hnew, hall⟩ := h
  obtain ⟨new', hnew', hall'⟩ := h'
  refine ⟨new' ++ new, ?_, fun x hx => ?_⟩
  · rw [hnew', hnew, List.append_assoc]
  · rcases List.mem_append.1 hx with hx | hx
    · exact hall' x hx
    · exact hall x hx

/-- One more entry in the history. -/
theorem Unmarked.note {e : Entry} (h : p.Unmarked q) (he : e ≠ .hookPanicked .acquired) :
    p.Unmarked (q.note e) := by
  obtain ⟨new, hnew, hall⟩ := h
  exact ⟨_ :: new, congrArg _ hnew, List.forall_mem_cons.2 ⟨he, hall⟩⟩

/-- A pool with the same slots, where the callback for acquisitions has not panicked meanwhile. -/
structure Calm (p q : Pool) : Prop where
  slots : q.table.slots = p.table.slots
  nextId : q.table.nextId = p.table.nextId
  unmarked : p.Unmarked q

/-- A pool whose slots and history are the same is calm. -/
theorem Calm.of_eq (hs : q.table.slots = p.table.slots) (hn : q.table.nextId = p.table.nextId)
    (hh : q.history = p.history) : p.Calm q :=
  ⟨hs, hn, .of_eq hh⟩

theorem Calm.refl (p : Pool) : p.Calm p := .of_eq rfl rfl rfl

/-- Calm changes one after another are calm. -/
theorem Calm.trans (h : p.Calm q) (h' : q.Calm r) : p.Calm r :=
  ⟨h'.slots.trans h.slots, h'.nextId.trans h.nextId, h.unmarked.trans h'.unmarked⟩

/-- Writing another entry is calm. -/
theorem Calm.note {e : Entry} (he : e ≠ .hookPanicked .acquired) : p.Calm (p.note e) :=
  ⟨rfl, rfl, (Unmarked.of_eq rfl).note he⟩

/-- Discarding a resource is calm. -/
theorem Calm.discard (p : Pool) (resource : Nat) : p.Calm (p.discard resource) := by
  rw [discard_eq]
  exact .of_eq rfl rfl rfl

/-- Unwinding is calm. -/
theorem Calm.unwindTo (p : Pool) (mark : Nat) : p.Calm (p.unwindTo mark) := by
  rw [unwindTo_eq]
  exact .of_eq rfl rfl rfl

/-- Runs of quiet user code: it stays quiet. -/
def quietRun : Discipline where
  valid p := p.user.IsQuiet
  moves p q := p.user.IsQuiet → q.user.IsQuiet
  refl _ := id
  trans h h' := h' ∘ h
  keep hp h := h hp

/-- Unwinding is what a quiet run may do. -/
theorem quietRun_unwindTo (p : Pool) (mark : Nat) : quietRun.moves p (p.unwindTo mark) := by
  rw [unwindTo_eq]
  exact id

end Pool

namespace PoolM

open Pool (quietRun)

variable {α β : Type} {m : PoolM α} {f : α → PoolM β} {p q : Pool}

/-- An action that leaves the slots alone if user code is quiet, however it ends. -/
def Mild (m : PoolM α) : Prop :=
  ∀ p, Spec quietRun m p (fun _ q => p.Calm q) fun _ q => p.Calm q

/-- A mild action after others. -/
theorem Mild.from (hm : Mild m) (hp : p.Calm q) :
    Spec quietRun m q (fun _ r => p.Calm r) fun _ r => p.Calm r :=
  (hm q).mono (fun _ _ h => hp.trans h) fun _ _ h => hp.trans h

theorem Mild.pure (value : α) : Mild (Pure.pure value) := fun p => .pure (.refl p)

theorem Mild.raise (panic : Panic) : Mild (PoolM.raise panic : PoolM α) := fun p => .raise (.refl p)

/-- Mild actions are mild in sequence. -/
theorem Mild.bind (hm : Mild m) (hf : ∀ value, Mild (f value)) : Mild (m >>= f) :=
  fun p => (hm p).bind fun value _ hq => (hf value).from hq

/-- Looking at the pool before mild actions. -/
theorem Mild.read {g : Pool → α} (hf : ∀ value, Mild (f value)) : Mild (PoolM.read g >>= f) :=
  fun p => .read (hf (g p) p)

/-- A change that leaves user code and the slots alone. -/
theorem Mild.change {g : Pool → Pool} (hu : ∀ p, (g p).user = p.user)
    (hc : ∀ p, Pool.Calm p (g p)) :
    Mild (PoolM.change g) :=
  fun p => .change_last (fun hq => hu p ▸ hq) (hc p)

/-- A calm change is a mild action. -/
theorem Mild.update {g : Pool → α × Pool} (hu : ∀ p, (g p).2.user = p.user)
    (hc : ∀ p, Pool.Calm p (g p).2) : Mild (PoolM.update g) :=
  fun p => .update_last (fun hq => hu p ▸ hq) (hc p)

/-- A panic that is caught is no panic, and what the action still held matters to no slot. -/
theorem Mild.catch (hm : Mild m) (nested : Op → PoolM Reply) (p : Pool) :
    Spec quietRun (PoolM.attempt nested m) p (fun _ q => p.Calm q) fun _ _ => False := by
  refine (Spec.attempt (fun _ q => p.Calm q) (hm p) fun _ q hq => ?_).weaken fun result q hq => ?_
  · exact .given fun hu => .of_done (unwind_apply hu.destructor_eq_nil _)
      (Pool.quietRun_unwindTo q _) (hq.trans (.unwindTo q _))
  · cases result <;> exact hq

/-- Catching a panic of a mild action is mild. -/
theorem Mild.attempt (hm : Mild m) (nested : Op → PoolM Reply) : Mild (PoolM.attempt nested m) :=
  fun p => (hm.catch nested p).mono (fun _ _ h => h) fun _ _ => False.elim

theorem mild_remark (e : Pool → Entry) (he : ∀ p, e p ≠ .hookPanicked .acquired) :
    Mild (change fun p => p.note (e p)) :=
  .change (fun _ => rfl) fun p => .note (he p)

theorem mild_emit (e : Event) : Mild (emit e) := mild_remark _ fun _ => nofun

theorem mild_trace (severity : Severity) (message : String) (fields : List (String × FieldValue)) :
    Mild (trace severity message fields) := mild_remark _ fun _ => nofun

theorem mild_bump (c : Counter) : Mild (bump c) :=
  .change (fun _ => rfl) fun _ => .of_eq rfl rfl rfl

/-- Setting the target is mild. -/
theorem mild_setDesired (wanted : Nat) : Mild (setDesired wanted) := by
  refine .read fun config => .bind ?_ fun target =>
    .bind (.change (fun _ => rfl) fun _ => .of_eq rfl rfl rfl) fun _ => .pure target
  cases clamp config.minCount config.maxCount wanted with
  | ok target => exact .pure target
  | error panic => exact .raise panic

/-- Quiet calls run no operations. -/
theorem mild_runInside {nested : Op → PoolM Reply} {ops : List Op} (hops : ∀ op ∈ ops, False) :
    Mild (runInside nested ops) := by
  rw [List.eq_nil_iff_forall_not_mem.2 hops]
  exact .pure ()

/-- A quiet factory call is mild. -/
theorem mild_callFactory (nested : Op → PoolM Reply) (origin : Origin) :
    Mild (callFactory nested origin) := by
  refine fun p => .given fun hu => ?_
  unfold callFactory
  refine .change id (.update (fun hu => hu.afterFactory) ?_)
  have hstart : p.Calm (p.note (.factory origin)) := .note nofun
  have hnext : p.Calm { p.note (.factory origin) with
      user := { p.user with factory := p.user.factory.next.2 } } :=
    hstart.trans (.of_eq rfl rfl rfl)
  refine ((mild_runInside hu.nextFactory).from hnext).bind fun _ q hq => ?_
  split
  · exact .update_last id (hq.trans (.of_eq rfl rfl rfl))
  · exact .pure hq
  · exact .raise hq

/-- What a check leaves to wait for is mild. -/
theorem mild_examined (style : CheckStyle) (resource : Nat) (outcome : Examination) :
    Mild (examined style resource outcome) := by
  have hstick : Mild (change fun p => { p with stuck := resource :: p.stuck }) :=
    .change (fun _ => rfl) fun _ => .of_eq rfl rfl rfl
  cases outcome with
  | answer result => exact .pure _
  | silence =>
    cases style with
    | direct => exact .pure _
    | onWorker => exact hstick.bind fun _ => .pure _
  | abandonment => exact .pure _
  | panic panic =>
    cases style with
    | direct => exact .raise panic
    | onWorker => exact .pure _

/-- A quiet check is mild. -/
theorem mild_callCheck (nested : Op → PoolM Reply) (style : CheckStyle) (resource : Nat)
    (checker : Checker) : Mild (callCheck nested style resource checker) := by
  refine fun p => .given fun hu => ?_
  unfold callCheck
  refine .change id (.update (fun hu => hu.afterCheck resource) ?_)
  have hstart : p.Calm (p.note (.check resource checker)) := .note nofun
  have hnext : p.Calm { p.note (.check resource checker) with
      user := (p.user.nextCheck resource).2 } := hstart.trans (.of_eq rfl rfl rfl)
  exact ((mild_runInside (hu.nextCheck resource)).from hnext).bind fun _ q hq =>
    (mild_examined style resource _).from hq

/-- The end of a check is mild. -/
theorem mild_conclude (resource : Nat) (checker : Checker) (result : Except CheckError Verdict) :
    Mild (conclude resource checker result) := by
  refine .change (fun _ => rfl) fun p => ?_
  have htally : p.Calm { p with tally := tallied p.tally result } := .of_eq rfl rfl rfl
  exact htally.trans (.note nofun)

/-- Waiting for a verdict is mild. -/
theorem mild_awaitVerdict (resource : Nat) (checker : Checker) (probe : Probe) :
    Mild (awaitVerdict resource checker probe) := by
  refine .read fun limit => ?_
  have hpass : Mild (change (·.pass limit)) := .change (fun _ => rfl) fun _ => .of_eq rfl rfl rfl
  cases probe with
  | silent => exact hpass.bind fun _ => (mild_conclude _ _ _).bind fun _ => .pure _
  | ready | answered | abandoned => exact (mild_conclude _ _ _).bind fun _ => .pure _

/-- Waiting for a verdict never panics. -/
theorem awaitVerdict_ne_panicked (resource : Nat) (checker : Checker) (probe : Probe)
    (panic : Panic) (p q : Pool) :
    awaitVerdict resource checker probe p ≠ (.panicked panic, q) := by
  cases probe <;> nofun

/-- A check never ends with a panic. -/
theorem quiet_probe (nested : Op → PoolM Reply) (resource : Nat) (checker : Checker) (p : Pool) :
    Spec quietRun (probe nested resource checker) p (fun _ q => p.Calm q) fun _ _ => False := by
  apply Spec.read
  cases p.user.checkStyle with
  | none => exact .pure (.refl p)
  | some style =>
    refine ((mild_callCheck nested style resource checker).catch nested p).bind
      fun ending q hq => ?_
    have hawait := (mild_awaitVerdict resource checker (started ending)).from hq
    exact hawait.of_ne_panicked fun panic r => awaitVerdict_ne_panicked resource checker _ panic q r

/-- A load-scaling policy is mild. -/
theorem mild_followPolicy (policy : LoadScaling) (call : HookCall) :
    Mild (followPolicy policy call) := by
  refine .read fun status => .read fun target => ?_
  split
  · exact .pure ()
  · refine (mild_setDesired _).bind fun applied => ?_
    split
    · split
      · exact mild_remark _ fun _ => nofun
      · exact .pure ()
    · exact .pure ()

/-- A routine that moves the target is mild. -/
theorem mild_aim (wanted : Option Nat) : Mild (aim wanted) := by
  cases wanted with
  | none => exact .pure ()
  | some wanted => exact (mild_setDesired wanted).bind fun _ => mild_remark _ fun _ => nofun

/-- A routine that runs no operations is calm. -/
theorem spec_followRoutine_quiet {nested : Op → PoolM Reply} {call : HookCall}
    {routine : HookRoutine} (hr : p.user.hook.routine? call = some routine) :
    Spec quietRun (followRoutine nested call routine) p (fun _ q => p.Calm q)
      fun _ q => p.Calm q := by
  refine .given fun hu => .change (fun hu => hu.afterHook hr) ?_
  have hstart : p.Calm (p.note (.noted call p.status)) := .note nofun
  have hnext : p.Calm { p.note (.noted call p.status) with
      user := { p.user with hook := p.user.hook.withRoutine routine.next.2 call } } :=
    hstart.trans (.of_eq rfl rfl rfl)
  refine ((mild_aim _).from hnext).bind fun _ q hq => ?_
  refine ((mild_runInside (hu.nextHook hr)).from hq).bind fun _ r hr => ?_
  split
  · exact .raise hr
  · exact .pure hr

theorem mild_followScaling (scaling : Option LoadScaling) (call : HookCall) :
    Mild (followScaling scaling call) := by
  cases scaling with
  | none => exact .pure ()
  | some policy => exact mild_followPolicy policy call

/-- A hook that runs no operations is mild. -/
theorem mild_follow (nested : Op → PoolM Reply) (call : HookCall) : Mild (follow nested call) := by
  intro p
  have hpolicy := mild_followScaling p.user.hook.scaling call
  apply Spec.read
  cases hr : p.user.hook.routine? call with
  | none => exact hpolicy p
  | some routine => exact (spec_followRoutine_quiet hr).bind fun _ q hq => hpolicy.from hq

/-- A call of the hook is mild up to the mark that a panic leaves. -/
theorem spec_callHook_quiet (nested : Op → PoolM Reply) (call : HookCall) (p : Pool) :
    Spec quietRun (callHook nested call) p (fun _ q => p.Calm q)
      fun _ q => ∃ r, p.Calm r ∧ q = r.note (.hookPanicked call) := by
  have hstart : p.Calm (p.note (.hook call)) := .note nofun
  refine .change id (Spec.onPanic ((mild_follow nested call).from hstart) fun _ q _ hq => ?_)
  exact ⟨id, q, hq, rfl⟩

/-- A quiet callback is mild, unless it is the one for acquisitions. -/
theorem mild_callHook (nested : Op → PoolM Reply) {call : HookCall} (hc : call ≠ .acquired) :
    Mild (callHook nested call) := by
  refine fun p => (spec_callHook_quiet nested call p).mono (fun _ _ h => h) fun _ q hq => ?_
  obtain ⟨r, hr, rfl⟩ := hq
  refine hr.trans (.note fun he => hc ?_)
  cases he
  rfl

/-- Disposing of a resource is mild if its destructor runs nothing. -/
theorem mild_dispose (nested : Op → PoolM Reply) (resource : Nat) :
    Mild (dispose nested resource) := by
  have huser (p : Pool) : (p.discard resource).user = p.user := by rw [Pool.discard_eq]
  refine fun p => .given fun hu => .update (fun hq => huser p ▸ hq) ?_
  refine ((mild_runInside (hu.parting resource)).from (.discard p resource)).bind fun _ q hq => ?_
  split
  · exact .raise hq
  · exact .pure hq

/-- Letting go of a holding is mild if destructors run nothing. -/
theorem mild_letGo (nested : Op → PoolM Reply) (h : Holding) : Mild (letGo nested h) := by
  refine .bind (.change (fun _ => rfl) fun _ => .of_eq rfl rfl rfl) fun _ => ?_
  cases h.resource? with
  | some resource => exact mild_dispose nested resource
  | none => exact .pure ()

/-- Destroying slots is mild if their destructors run nothing. -/
theorem mild_destroy (nested : Op → PoolM Reply) (reason : DestroyReason)
    (slots : List (Slot Nat)) : Mild (destroy nested reason slots) := by
  induction slots with
  | nil => exact .pure ()
  | cons s rest ih =>
    have hone : Mild (destroyOne nested reason s) :=
      (mild_bump .destroyed).bind fun _ => (mild_emit _).bind fun _ => mild_letGo nested _
    exact hone.bind fun _ => ih

theorem mild_reserve (origin : Origin) (wanted : Nat) : Mild (reserve origin wanted) :=
  .update (fun _ => rfl) fun _ => ⟨rfl, rfl, (Pool.Unmarked.of_eq rfl).note nofun⟩

theorem mild_unreserve (n : Nat) : Mild (unreserve n) := by
  induction n with
  | zero => exact .pure ()
  | succ n ih => exact .bind (.change (fun _ => rfl) fun _ => .of_eq rfl rfl rfl) fun _ => ih

/-- A refusal is mild. -/
theorem mild_refuse (nested : Op → PoolM Reply) : Mild (refuse nested) := by
  have hhook : Mild (callHook nested .exhausted) := mild_callHook nested nofun
  refine .read fun inUse => .read fun max => ?_
  exact (mild_bump _).bind fun _ => (mild_emit _).bind fun _ => hhook.bind fun _ => .pure _

/-- A creation up to its commit is mild. -/
theorem mild_produce (nested : Op → PoolM Reply) (origin : Origin) :
    Mild (produce nested origin) := by
  cases origin with
  | acquire => exact mild_callFactory nested .acquire
  | countKeeper | healthCareJob =>
    refine ((mild_callFactory nested _).attempt nested).bind fun ending => ?_
    cases ending with
    | ok result => exact .pure result
    | error panic => exact .pure _

end PoolM

end LeasePool
