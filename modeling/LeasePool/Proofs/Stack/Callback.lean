import LeasePool.Proofs.Stack.Basic

/-!
# The stack under calls of user code

A call of user code leaves the stack of holdings as it found it, however many operations run inside
it, provided that these operations do. A factory call that succeeds leaves the new resource on top.
-/

namespace LeasePool.PoolM

open Pool (Hosts)

variable {d : Discipline} [Hosts d] {nested : Op → PoolM Reply} {p : Pool}

/-- Writing a remark into the history. -/
theorem balanced_remark (e : Pool → Entry) (he : ∀ p, (e p).IsRemark) :
    Balanced d (change fun p => p.note (e p)) :=
  .step (fun p => .remark (e p) (he p)) (fun _ => rfl) (fun _ => rfl)
    fun p => Pool.findings_note_remark (he p)

/-- Setting the target is balanced, also if the bounds cross. -/
theorem balanced_setDesired (wanted : Nat) : Balanced d (setDesired wanted) := by
  refine .read fun config => ?_
  refine .bind ?_ fun target => ?_
  · cases clamp config.minCount config.maxCount wanted with
    | ok target => exact .pure target
    | error panic => exact .raise panic
  · exact .bind (.step (fun _ => .desired target) fun _ => rfl) fun _ => .pure target

/-- A factory call leaves a new resource on the stack if it makes one. -/
theorem Nests.callFactory (hn : Nests d nested) {origin : Origin}
    (hf : d.valid p → d.moves p (p.note (.factory origin))) :
    Spec d (callFactory nested origin) p (fun result q => q.holdings =
        match result with
        | .ok resource => .product resource :: p.holdings
        | .error _ => p.holdings)
      fun _ q => q.Strewn p.holdings := by
  refine .given fun hv => ?_
  unfold PoolM.callFactory
  refine .change (hf hv) ?_
  refine .stepValue (.user _ (fun hu => hu.afterFactory) rfl rfl) ?_
  have hruns := hn _ _ (.factory p origin) (Hosts.tame hv).user.nextFactory
  refine (hruns.mono (fun _ _ h => h) fun _ _ => False.elim).bind fun _ q hq => ?_
  split
  · exact .stepValue_last .make (congrArg _ hq)
  · exact .pure hq
  · exact .raise (.of_eq hq)

/-- What a check leaves to wait for. -/
theorem spec_examined (style : CheckStyle) {resource : Nat} {checker : Checker}
    (hb : p.Backs resource checker) (outcome : Examination) :
    Spec d (examined style resource outcome) p (fun _ q => q.holdings = p.holdings)
      fun _ q => q.holdings = p.holdings := by
  cases outcome with
  | answer result => exact .pure rfl
  | silence =>
    cases style with
    | direct => exact .pure rfl
    | onWorker => exact .step (.strand resource checker hb) (.pure rfl)
  | abandonment => exact .pure rfl
  | panic panic =>
    cases style with
    | direct => exact .raise rfl
    | onWorker => exact .pure rfl

/-- A health check that was called a moment ago. -/
theorem Nests.answerCheck (hn : Nests d nested) (style : CheckStyle) {resource : Nat}
    {checker : Checker} (hb : p.Backs resource checker) :
    Spec d (answerCheck nested style resource) (p.note (.check resource checker))
      (fun _ q => q.holdings = p.holdings) fun _ q => q.holdings = p.holdings := by
  refine .given fun hv => ?_
  unfold PoolM.answerCheck
  refine .stepValue (.user _ (fun hu => hu.afterCheck resource)
    (UserCode.checkStyle_nextCheck _ resource) (UserCode.destructor_nextCheck _ resource)) ?_
  have hruns := hn _ _ (.check p resource checker) ((Hosts.tame hv).user.nextCheck resource)
  refine (hruns.mono (fun _ _ h => h) fun _ _ => False.elim).bind fun _ q hq => ?_
  have hbq : q.Backs resource checker := hb.of_holdings hq
  have hholdings : q.holdings = p.holdings := hq
  exact hholdings ▸ spec_examined style hbq _

/-- Waiting for a verdict leaves it to be counted. -/
theorem spec_awaitVerdict {β : Type} {resource : Nat} {checker : Checker} (probe : Probe)
    {k : Except CheckError Verdict → PoolM β} {after : β → Pool → Prop}
    {raised : Panic → Pool → Prop}
    (hk : ∀ result q, q.holdings = p.holdings → q.history = p.history →
      Spec d (conclude resource checker result >>= fun _ => k result) q after raised) :
    Spec d (awaitVerdict resource checker probe >>= k) p after raised := by
  unfold awaitVerdict
  rw [bind_assoc]
  apply Spec.read
  cases probe with
  | silent =>
    have hpass : p.PlainStep (p.pass p.config.checkTimeout) :=
      ⟨.aside (.clock _ (Nat.le_add_right _ _)) rfl, rfl⟩
    exact .jump (n := conclude resource checker _ >>= fun _ => k _) rfl (Hosts.step · hpass)
      (hk _ _ rfl rfl)
  | ready | answered | abandoned => exact hk _ p rfl rfl

/-- In between, a check of a resource was called before anything else happened. -/
def Calls (p : Pool) (resource : Nat) (checker : Checker) (q : Pool) : Prop :=
  ∃ during c, q.history = during ++ c :: p.history ∧ c.entry = .check resource checker ∧
    c.seen = p.sight

/-- A health check leads to a verdict, and its panics go no further. The verdict is written down
together with what follows from it. -/
theorem Nests.probe_bind (hn : Nests d nested) {β : Type} {resource : Nat} {checker : Checker}
    {k : Except CheckError Verdict → PoolM β} {after : β → Pool → Prop}
    {raised : Panic → Pool → Prop} (hb : p.Backs resource checker)
    (hc : checker = .care → p.careStops = false)
    (hnone : p.user.checkStyle = none → Spec d (k (.ok .healthy)) p after raised)
    (hsome : ∀ result q, q.holdings = p.holdings → Calls p resource checker q →
      Spec d (conclude resource checker result >>= fun _ => k result) q after raised) :
    Spec d (probe nested resource checker >>= k) p after raised := by
  unfold PoolM.probe
  rw [bind_assoc]
  apply Spec.read
  cases hs : p.user.checkStyle with
  | none => exact hnone hs
  | some style =>
    dsimp only
    rw [bind_assoc]
    have hstep : d.valid p → d.moves p (p.note (.check resource checker)) :=
      fun hv => Hosts.step hv ⟨.aside (.check resource checker hb (by simp [hs]) hc) rfl, rfl⟩
    refine .jump (n := attempt nested (PoolM.answerCheck nested style resource) >>= fun ending =>
      awaitVerdict resource checker (started ending) >>= k) rfl hstep ?_
    have hanswer := (hn.answerCheck (p := p) style hb).mono (fun _ _ h => h)
      fun _ q h => Pool.Strewn.of_eq h
    have hcaught := (Spec.catch hn (p := p.note (.check resource checker)) hanswer).tracked
    refine (hcaught.mono (fun _ _ h => h) fun _ _ => False.elim).bind fun ending q hq => ?_
    have hholdings : q.holdings = p.holdings := by
      obtain ⟨hq, -⟩ := hq
      cases ending <;> exact hq
    obtain ⟨during, hduring⟩ := Hosts.grows hq.2
    refine spec_awaitVerdict (started ending) fun result r hr hhistory => ?_
    exact hsome result r (hr.trans hholdings) ⟨during, _, hhistory.trans hduring.symm, rfl, rfl⟩

/-- A policy moves the target. -/
theorem balanced_followPolicy (policy : LoadScaling) (call : HookCall) :
    Balanced d (followPolicy policy call) := by
  refine .read fun status => .read fun target => ?_
  split
  · exact .pure ()
  · refine (balanced_setDesired _).bind fun applied => ?_
    split
    · split
      · exact balanced_remark _ fun _ => trivial
      · exact .pure ()
    · exact .pure ()

theorem balanced_aim (wanted : Option Nat) : Balanced d (aim wanted) := by
  cases wanted with
  | none => exact .pure ()
  | some wanted =>
    exact (balanced_setDesired wanted).bind fun _ => balanced_remark _ fun _ => trivial

/-- A hook routine that is the next one to run. -/
theorem Nests.followRoutine (hn : Nests d nested) {call : HookCall} {routine : HookRoutine}
    (hr : p.user.hook.routine? call = some routine) :
    Spec d (followRoutine nested call routine) p (fun _ q => q.holdings = p.holdings)
      fun _ q => q.Strewn p.holdings := by
  refine .given fun hv => ?_
  have hnoted : p.PlainStep (p.note (.noted call p.status)) :=
    ⟨.aside (.remark (.noted call p.status) trivial) rfl, rfl⟩
  have hnext : (p.note (.noted call p.status)).PlainStep { p.note (.noted call p.status) with
      user := { p.user with hook := p.user.hook.withRoutine routine.next.2 call } } :=
    ⟨.aside (.user _ (fun hu => hu.afterHook hr) rfl rfl) rfl, rfl⟩
  refine .change (Hosts.steps hv (.tail (.single hnoted) hnext)) ?_
  refine ((balanced_aim _).from rfl).known.bind fun _ q ⟨hq, haim⟩ => ?_
  have hruns := hn _ _ (.hook hr haim) ((Hosts.tame hv).user.nextHook hr)
  refine (hruns.mono (fun _ _ h => h) fun _ _ => False.elim).bind fun _ r hr => ?_
  split
  · exact .raise (.of_eq (hr.trans hq))
  · exact .pure (hr.trans hq)

/-- The scaling of a hook is balanced. -/
theorem balanced_followScaling (scaling : Option LoadScaling) (call : HookCall) :
    Balanced d (followScaling scaling call) := by
  cases scaling with
  | none => exact .pure ()
  | some policy => exact balanced_followPolicy policy call

/-- A callback is balanced if what it runs is. -/
theorem Nests.follow (hn : Nests d nested) (call : HookCall) : Balanced d (follow nested call) := by
  intro p
  have hpolicy : Balanced d (followScaling p.user.hook.scaling call) :=
    balanced_followScaling p.user.hook.scaling call
  apply Spec.read
  cases hr : p.user.hook.routine? call with
  | none => exact hpolicy p
  | some routine => exact (hn.followRoutine hr).bind fun _ q hq => hpolicy.from hq

/-- A hook callback that panics leaves a mark in the history. -/
theorem Nests.callHook (hn : Nests d nested) (call : HookCall) (p : Pool) :
    Spec d (callHook nested call) p (fun _ q => q.holdings = p.holdings)
      fun _ q => q.Strewn p.holdings ∧ q.HasPanicked call := by
  refine .step (.remark (.hook call) trivial) ?_
  refine Spec.onPanic ((hn.follow call).from rfl) fun panic q hv hq => ?_
  refine ⟨Hosts.step hv ⟨.aside (.remark (.hookPanicked call) trivial) rfl, rfl⟩, ?_, ?_⟩
  · exact hq.mono rfl (fun r hr => List.mem_cons_of_mem _ hr) fun _ => id
  · exact ⟨_, List.mem_cons_self, rfl⟩

/-- A hook callback other than the one for acquisitions, as a part of a balanced action. -/
theorem Nests.balanced_callHook (hn : Nests d nested) (call : HookCall) :
    Balanced d (PoolM.callHook nested call) :=
  fun p => (hn.callHook call p).mono (fun _ _ h => h) fun _ _ h => h.1

end LeasePool.PoolM
