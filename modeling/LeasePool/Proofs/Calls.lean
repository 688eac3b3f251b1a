import LeasePool.Proofs.Ends

/-!
# Calls of quiet user code

How the calls of quiet user code will end is settled by its routines. This module names what a
factory call and a health check will say, and follows the calls of the factory, of the health check
and of the hook with that.
-/

namespace LeasePool

/-- The behaviour of the call after `n` others. -/
def Routine.nth {β : Type} (r : Routine β) (n : Nat) : β := r.queue.getD n r.rest

/-- The routine of the calls after `n` others. -/
def Routine.skip {β : Type} (r : Routine β) (n : Nat) : Routine β := ⟨r.queue.drop n, r.rest⟩

/-- The next call behaves as the one after no others. -/
theorem Routine.next_fst {β : Type} (r : Routine β) : r.next.1 = r.nth 0 := by
  obtain ⟨_ | ⟨b, queue⟩, rest⟩ := r <;> rfl

/-- After the next call one call is over. -/
theorem Routine.next_snd {β : Type} (r : Routine β) : r.next.2 = r.skip 1 := by
  obtain ⟨_ | ⟨b, queue⟩, rest⟩ := r <;> rfl

/-- Calls are counted from those that are over. -/
theorem Routine.nth_skip {β : Type} (r : Routine β) (m n : Nat) :
    (r.skip m).nth n = r.nth (m + n) := by
  simp only [nth, skip, List.getD_eq_getElem?_getD, List.getElem?_drop]

/-- Calls that are over add up. -/
theorem Routine.skip_skip {β : Type} (r : Routine β) (m n : Nat) :
    (r.skip m).skip n = r.skip (m + n) := by
  simp only [skip, List.drop_drop]

/-- Why a factory call gives no resource, or nothing if it gives one. For a background job a panic
is an error like any other. -/
def Production.error? : Production → Option CreationError
  | .success => none
  | .failure error => some error
  | .panic p => some (.ofPanic p)

/-- What a health check that ends in some way says. A timeout counts as an unhealthy verdict. -/
def Examination.result (style : CheckStyle) (limit : Duration) :
    Examination → Except CheckError Verdict
  | .answer result => Verdict.settle result
  | .silence => .ok (.unhealthy ("no verdict within " ++ limit.text))
  | .abandonment => .error .abandoned
  | .panic p => match style with
    | .direct => .error (.ofPanic p)
    | .onWorker => .error .abandoned

/-- The deeds of a health check. A pool without one does nothing. -/
def checkDeeds (style : Option CheckStyle) (resource : Nat) (checker : Checker)
    (result : Except CheckError Verdict) : List Entry :=
  match style with
  | none => []
  | some _ => [.check resource checker, .verdict resource checker result]

namespace UserCode

/-- What the next health check of a resource will say. Without a health check all are healthy. -/
def checked (limit : Duration) (u : UserCode) (resource : Nat) : Except CheckError Verdict :=
  match u.checkStyle with
  | none => .ok .healthy
  | some style => (u.nextCheck resource).1.outcome.result style limit

/-- User code after a health check of a resource. -/
def afterCheck (u : UserCode) (resource : Nat) : UserCode :=
  match u.checkStyle with
  | none => u
  | some _ => (u.nextCheck resource).2

/-- User code after a number of factory calls. -/
def afterFactory (u : UserCode) (n : Nat) : UserCode := { u with factory := u.factory.skip n }

/-- What the checks of resources will say, one after another. -/
def checkedAll (limit : Duration) : List Nat → UserCode → List (Except CheckError Verdict)
  | [], _ => []
  | resource :: others, u =>
    u.checked limit resource :: checkedAll limit others (u.afterCheck resource)

/-- A check does not change how checks are run. -/
theorem checkStyle_afterCheck (u : UserCode) (resource : Nat) :
    (u.afterCheck resource).checkStyle = u.checkStyle := by
  unfold afterCheck
  cases h : u.checkStyle with
  | none => exact h
  | some style => exact (u.checkStyle_nextCheck resource).trans h

/-- A check does not call the factory. -/
theorem factory_afterCheck (u : UserCode) (resource : Nat) :
    (u.afterCheck resource).factory = u.factory := by
  unfold afterCheck nextCheck
  split
  · rfl
  · dsimp only
    split <;> rfl

/-- Quiet user code stays quiet after factory calls. -/
theorem isQuiet_afterFactory {u : UserCode} (h : u.IsQuiet) (n : Nat) :
    (u.afterFactory n).IsQuiet := by
  refine { h with factory := fun op hop => h.factory op ?_ }
  rcases List.mem_append.1 hop with hop | hop
  · obtain ⟨behaviour, hmem, hduring⟩ := List.mem_flatMap.1 hop
    have hmem := List.mem_of_mem_drop hmem
    exact List.mem_append_left _ (List.mem_flatMap.2 ⟨behaviour, hmem, hduring⟩)
  · exact List.mem_append_right _ hop

/-- Factory calls do not matter for health checks. -/
theorem checked_afterFactory (u : UserCode) (n : Nat) (limit : Duration) (resource : Nat) :
    (u.afterFactory n).checked limit resource = u.checked limit resource := by
  unfold checked nextCheck
  dsimp only [afterFactory, checkRoutine]
  split
  · rfl
  · split <;> rfl

/-- Checks and factory calls do not influence each other. -/
theorem afterCheck_afterFactory (u : UserCode) (n : Nat) (resource : Nat) :
    (u.afterFactory n).afterCheck resource = (u.afterCheck resource).afterFactory n := by
  unfold afterCheck nextCheck
  dsimp only [afterFactory, checkRoutine, withCheck]
  split
  · rfl
  · split <;> rfl

end UserCode

namespace Pool

/-- A pool whose factory has been called and has run no operation. -/
def calledFactory (origin : Origin) (p : Pool) : Pool :=
  { p.note (.factory origin) with user := p.user.afterFactory 1 }

/-- What callbacks of a hook may do that run no operation: they move the target, and they write
remarks. -/
structure Steered (p q : Pool) : Prop where
  parts : ∃ desired hook remarks,
    q = { p with desired, user := { p.user with hook }, history := remarks ++ p.history } ∧
      ∀ r ∈ remarks, r.entry.isDeed = false ∧ r.entry.isHookPanic = false
  hook : ∀ P, p.user.hook.Runs P → q.user.hook.Runs P

namespace Steered

variable {p q : Pool}

/-- Doing nothing is allowed to a callback. -/
theorem refl (p : Pool) : p.Steered p :=
  ⟨⟨p.desired, p.user.hook, [], rfl, by simp⟩, fun _ => id⟩

/-- A callback may write a remark. -/
theorem note (h : p.Steered q) {e : Entry} (he : e.isDeed = false ∧ e.isHookPanic = false) :
    p.Steered (q.note e) := by
  obtain ⟨⟨desired, hook, remarks, rfl, hremarks⟩, hruns⟩ := h
  exact ⟨⟨desired, hook, _ :: remarks, rfl, List.forall_mem_cons.2 ⟨he, hremarks⟩⟩, hruns⟩

/-- A callback may move the target. -/
theorem withDesired (h : p.Steered q) (target : Nat) : p.Steered { q with desired := target } := by
  obtain ⟨⟨desired, hook, remarks, rfl, hremarks⟩, hruns⟩ := h
  exact ⟨⟨target, hook, remarks, rfl, hremarks⟩, hruns⟩

/-- A callback moves its routine on. -/
theorem afterHook (h : p.Steered q) {call : HookCall} {routine : HookRoutine}
    (hr : q.user.hook.routine? call = some routine) :
    p.Steered { q with
      user := { q.user with hook := q.user.hook.withRoutine routine.next.2 call } } := by
  obtain ⟨⟨desired, hook, remarks, rfl, hremarks⟩, hruns⟩ := h
  exact ⟨⟨desired, _, remarks, rfl, hremarks⟩, fun P hp => (hruns P hp).withRoutine hr⟩

/-- A callback keeps the history. -/
theorem history (h : p.Steered q) : p.history <:+ q.history := by
  obtain ⟨desired, hook, remarks, rfl, -⟩ := h.parts
  exact List.suffix_append ..

/-- All that a hook writes are remarks. -/
theorem remarks (h : p.Steered q) {r : Record} (hr : r ∈ q.recordsSince p) :
    r.entry.isDeed = false ∧ r.entry.isHookPanic = false := by
  obtain ⟨desired, hook, remarks, rfl, hremarks⟩ := h.parts
  rw [recordsSince_eq rfl, List.mem_reverse] at hr
  exact hremarks r hr

/-- What a hook writes are no deeds. -/
theorem deedsSince (h : p.Steered q) {first : Pool} (hp : first.history <:+ p.history) :
    q.deedsSince first = p.deedsSince first := by
  have hnone : ((q.recordsSince p).map (·.entry)).filter (·.isDeed) = [] := by
    refine List.filter_eq_nil_iff.2 (List.forall_mem_map.2 fun r hr => ?_)
    simp [(h.remarks hr).1]
  rw [Pool.deedsSince, recordsSince_trans hp h.history, List.map_append, List.filter_append, hnone,
    List.append_nil]
  rfl

end Steered

/-- The hook leaves all that is remembered but the target. -/
theorem Does.steer {first p q : Pool} {deeds : List Entry} {b : Bench} (h : first.Does deeds b p)
    (hq : p.Steered q) : ∃ desired hook, first.Does deeds (b.steered desired hook) q := by
  have hdeeds := hq.deedsSince h.history
  have hrecords := recordsSince_trans h.history hq.history
  have hremarks := fun r => hq.remarks (r := r)
  have hhistory := h.history.trans hq.history
  have hruns := hq.hook _ h.isQuiet.hook
  obtain ⟨desired, hook, remarks, rfl, -⟩ := hq.parts
  refine ⟨desired, hook, ?_⟩
  exact {
    bench := congrArg (Bench.steered desired hook) h.bench
    history := hhistory
    deeds := hdeeds.trans h.deeds
    destroyed := h.destroyed
    brittle := h.brittle
    quiet := { h.quiet with hook := hruns }
    needed := fun r hr he => by
      rw [hrecords, List.mem_append] at hr
      rcases hr with hr | hr
      · exact h.needed r hr he
      · have := (hremarks r hr).1
        rw [he] at this
        cases this }

end Pool

namespace PoolM

variable {first p : Pool} {deeds : List Entry} {b : Bench} {nested : Op → PoolM Reply}

/-- Quiet calls run no operations. -/
theorem runInside_quiet {ops : List Op} (h : ∀ op ∈ ops, False) :
    runInside nested ops = pure () := by
  rw [List.eq_nil_iff_forall_not_mem.2 h]
  rfl

/-- A factory call that runs no operation. -/
theorem callFactory_of_during (h : (p.user.factory.nth 0).during = [])
    (nested : Op → PoolM Reply) (origin : Origin) :
    callFactory nested origin p = match (p.user.factory.nth 0).outcome with
      | .success => (.done (.ok p.made),
          { p.calledFactory origin with made := p.made + 1 }.hold (.product p.made))
      | .failure error => (.done (.error error), p.calledFactory origin)
      | .panic panic => (.panicked panic, p.calledFactory origin) := by
  simp only [callFactory, bind_apply, change_apply, update_apply]
  rw [show (p.note (.factory origin)).user.factory.next.1 = p.user.factory.nth 0 from
    Routine.next_fst _, show (p.note (.factory origin)).user.factory.next.2 = p.user.factory.skip 1
    from Routine.next_snd _, h, runInside, pure_apply]
  dsimp only
  cases (p.user.factory.nth 0).outcome <;> rfl

/-- The factory of quiet user code runs no operation. -/
theorem during_of_isQuiet (h : p.user.IsQuiet) : (p.user.factory.nth 0).during = [] := by
  refine List.eq_nil_iff_forall_not_mem.2 fun op hop => h.nextFactory op ?_
  rwa [Routine.next_fst]

/-- A health check of quiet user code. -/
theorem callCheck_quiet (h : p.user.IsQuiet) (nested : Op → PoolM Reply) (style : CheckStyle)
    (resource : Nat) (checker : Checker) :
    callCheck nested style resource checker p =
      examined style resource (p.user.nextCheck resource).1.outcome
        (p.calledCheck resource checker) := by
  simp only [callCheck, answerCheck, bind_apply, change_apply, update_apply]
  have hquiet : runInside nested
      ((p.note (.check resource checker)).user.nextCheck resource).1.during = pure () :=
    runInside_quiet (h.nextCheck resource)
  rw [hquiet]
  rfl

/-- What a factory call leaves behind, whatever it gives. -/
theorem does_calledFactory (h : first.Does deeds b p) {origin : Origin}
    (hn : origin = .acquire → b.table.Lacks first.config.maxCount) :
    first.Does (deeds ++ [.factory origin]) { b with user := b.user.afterFactory 1 }
      (p.calledFactory origin) := by
  have hnoted := h.deed (e := .factory origin) rfl fun he => hn (by injection he)
  exact hnoted.update (fun c => { c with user := c.user.afterFactory 1 }) rfl rfl rfl rfl
    (UserCode.isQuiet_afterFactory h.quiet 1)

/-- A factory call that does not panic answers whoever has asked for it. -/
theorem produce_of_done {origin : Origin} {result : Except CreationError Nat} {q : Pool}
    (h : callFactory nested origin p = (.done result, q)) :
    produce nested origin p = (.done result, q) := by
  cases origin with
  | acquire => exact h
  | countKeeper | healthCareJob =>
    simp only [produce, bind_apply, attempt, h]
    rfl

/-- A factory call gives the next resource or an error. -/
theorem doing_produce (h : first.Does deeds b p) {origin : Origin}
    (hn : origin = .acquire → b.table.Lacks first.config.maxCount)
    (hp : origin = .acquire → ∀ panic, (b.user.factory.nth 0).outcome ≠ .panic panic)
    {failure : Option CreationError} (hf : (b.user.factory.nth 0).outcome.error? = failure)
    (nested : Op → PoolM Reply) :
    Doing first (produce nested origin) p fun result q =>
      result = failure.elim (.ok b.made) .error ∧ first.Does (deeds ++ [.factory origin])
        { b with
          user := b.user.afterFactory 1
          made := failure.elim (b.made + 1) fun _ => b.made } q := by
  obtain rfl := h.bench
  have hstart := does_calledFactory h hn
  have hcall := callFactory_of_during (during_of_isQuiet h.quiet) nested origin
  change (p.user.factory.nth 0).outcome.error? = failure at hf
  change origin = .acquire → ∀ panic, (p.user.factory.nth 0).outcome ≠ .panic panic at hp
  cases ho : (p.user.factory.nth 0).outcome with
  | success =>
    rw [ho] at hcall hf
    subst hf
    have hend : first.Does (deeds ++ [.factory origin])
        { p.bench with user := p.user.afterFactory 1, made := p.made + 1 }
        ({ p.calledFactory origin with made := p.made + 1 }.hold (.product p.made)) :=
      hstart.change rfl rfl rfl rfl hstart.quiet
    exact .of_done (produce_of_done hcall) ⟨rfl, hend⟩
  | failure error =>
    rw [ho] at hcall hf
    subst hf
    exact .of_done (produce_of_done hcall) ⟨rfl, hstart⟩
  | panic panic =>
    rw [ho] at hcall hf
    subst hf
    cases origin with
    | acquire => exact absurd ho (hp rfl panic)
    | countKeeper | healthCareJob =>
      refine .of_done ?_ ⟨rfl, hstart⟩
      rw [produce, bind_of_done (attempt_of_balanced hcall rfl)]
      rfl

/-- What a health check leaves to wait for settles what it says. -/
theorem doing_attempt_callCheck (h : first.Does deeds b p) (nested : Op → PoolM Reply)
    (style : CheckStyle) (resource : Nat) (checker : Checker) (limit : Duration) :
    Doing first (attempt nested (callCheck nested style resource checker)) p fun ending q =>
      Verdict.settle ((started ending).wait limit) =
          (b.user.nextCheck resource).1.outcome.result style limit ∧
        first.Does (deeds ++ [.check resource checker])
          { b with user := (b.user.nextCheck resource).2 } q := by
  obtain rfl := h.bench
  have hnoted := h.deed (e := .check resource checker) rfl nofun
  have hstart : first.Does (deeds ++ [.check resource checker])
      { p.bench with user := (p.user.nextCheck resource).2 } (p.calledCheck resource checker) :=
    hnoted.change rfl rfl rfl rfl (UserCode.Runs.afterCheck h.quiet resource)
  have hstuck : first.Does (deeds ++ [.check resource checker])
      { p.bench with user := (p.user.nextCheck resource).2 }
      { p.calledCheck resource checker with
        stuck := resource :: (p.calledCheck resource checker).stuck } :=
    hstart.change rfl rfl rfl rfl hstart.quiet
  have hcall := callCheck_quiet h.quiet nested style resource checker
  change Doing first _ p fun ending q => _ =
    (p.user.nextCheck resource).1.outcome.result style limit ∧ _
  cases ho : (p.user.nextCheck resource).1.outcome with
  | answer result =>
    rw [ho] at hcall
    cases style <;> exact .of_done (by rw [attempt, hcall]; rfl) ⟨rfl, hstart⟩
  | silence =>
    rw [ho] at hcall
    cases style with
    | direct => exact .of_done (by rw [attempt, hcall]; rfl) ⟨rfl, hstart⟩
    | onWorker => exact .of_done (by rw [attempt, hcall]; rfl) ⟨rfl, hstuck⟩
  | abandonment =>
    rw [ho] at hcall
    exact .of_done (by rw [attempt, hcall]; rfl) ⟨rfl, hstart⟩
  | panic panic =>
    rw [ho] at hcall
    cases style with
    | direct =>
      exact .of_done (attempt_of_balanced hcall rfl) ⟨rfl, hstart⟩
    | onWorker => exact .of_done (by rw [attempt, hcall]; rfl) ⟨rfl, hstart⟩

/-- The end of a check is one more deed. -/
theorem doing_conclude (h : first.Does deeds b p) (resource : Nat) (checker : Checker)
    (result : Except CheckError Verdict) :
    Doing first (conclude resource checker result) p fun _ q =>
      first.Does (deeds ++ [.verdict resource checker result]) b q := by
  have htallied : first.Does deeds b { p with tally := tallied p.tally result } := by
    refine h.change rfl rfl rfl ?_ h.quiet
    rw [← h.bench]
    rcases result with error | _ | reason <;> rfl
  exact .of_done rfl (htallied.deed rfl nofun)

/-- Waiting for a verdict takes time only if there is none. -/
theorem doing_awaitVerdict (h : first.Does deeds b p) (resource : Nat) (checker : Checker)
    (probe : Probe) :
    Doing first (awaitVerdict resource checker probe) p fun result q =>
      result = Verdict.settle (probe.wait b.config.checkTimeout) ∧ ∃ clock : Clock,
        b.clock.now ≤ clock.now ∧
          first.Does (deeds ++ [.verdict resource checker result]) { b with clock } q := by
  obtain rfl := h.bench
  have hpassed : first.Does deeds { p.bench with clock := (p.pass p.config.checkTimeout).clock }
      (p.pass p.config.checkTimeout) := h.change rfl rfl rfl rfl h.quiet
  have hle : p.clock.now ≤ (p.pass p.config.checkTimeout).clock.now := Nat.le_add_right _ _
  refine .read ?_
  cases probe with
  | silent => exact .change ((doing_conclude hpassed _ _ _).bind fun _ _ hq =>
      .pure ⟨rfl, _, hle, hq⟩)
  | ready | answered | abandoned =>
    exact (doing_conclude h _ _ _).bind fun _ _ hq => .pure ⟨rfl, p.clock, Nat.le_refl _, hq⟩

/-- A check says what is settled, and a pool without health checks finds all healthy. -/
theorem doing_probe (h : first.Does deeds b p) (nested : Op → PoolM Reply) (resource : Nat)
    (checker : Checker) :
    Doing first (probe nested resource checker) p fun result q =>
      result = b.user.checked b.config.checkTimeout resource ∧ ∃ clock : Clock,
        b.clock.now ≤ clock.now ∧
          first.Does (deeds ++ checkDeeds b.user.checkStyle resource checker result)
            { b with user := b.user.afterCheck resource, clock } q := by
  have huser : p.user = b.user := by rw [← h.bench]; rfl
  refine .read ?_
  rw [huser]
  unfold UserCode.checked checkDeeds UserCode.afterCheck
  cases b.user.checkStyle with
  | none => exact .pure ⟨rfl, b.clock, Nat.le_refl _, by rwa [List.append_nil]⟩
  | some style =>
    refine (doing_attempt_callCheck h nested style resource checker
      b.config.checkTimeout).bind fun ending q ⟨hresult, hq⟩ => ?_
    refine (doing_awaitVerdict hq resource checker (started ending)).weaken ?_
    rintro result r ⟨rfl, clock, hle, hr⟩
    rw [List.append_assoc] at hr
    exact ⟨hresult, clock, hle, hr⟩

/-- What a part of the hook does, however it ends. -/
abbrev Steering {α : Type} (first : Pool) (m : PoolM α) (p : Pool) : Prop :=
  Ends m p (fun _ q => first.Steered q) fun _ q => first.Steered q

/-- Writing a remark is what a callback may do. -/
theorem steering_remark (h : first.Steered p) {e : Pool → Entry}
    (he : ∀ p, (e p).isDeed = false ∧ (e p).isHookPanic = false) :
    Steering first (PoolM.change fun p => p.note (e p)) p :=
  .of_done rfl (h.note (he p))

/-- Setting the target is what a callback may do, also if the bounds cross. -/
theorem steering_setDesired (h : first.Steered p) (wanted : Nat) :
    Steering first (setDesired wanted) p := by
  refine .read ?_
  cases clamp p.config.minCount p.config.maxCount wanted with
  | error panic => exact .of_panicked rfl h
  | ok target => exact .of_done rfl (h.withDesired target)

/-- A routine may move the target. -/
theorem steering_aim (h : first.Steered p) (wanted : Option Nat) :
    Steering first (aim wanted) p := by
  cases wanted with
  | none => exact .pure h
  | some wanted =>
    exact (steering_setDesired h wanted).bind fun _ _ hq => steering_remark hq fun _ => ⟨rfl, rfl⟩

/-- A load-scaling policy may move the target. -/
theorem steering_followPolicy (h : first.Steered p) (policy : LoadScaling) (call : HookCall) :
    Steering first (followPolicy policy call) p := by
  refine .read (.read ?_)
  split
  · exact .pure h
  · refine (steering_setDesired h _).bind fun applied q hq => ?_
    split
    · split
      · exact steering_remark hq fun _ => ⟨rfl, rfl⟩
      · exact .pure hq
    · exact .pure hq

/-- A routine that runs no operations moves the target at most. -/
theorem steering_followRoutine (h : first.Steered p) {call : HookCall} {routine : HookRoutine}
    (hr : p.user.hook.routine? call = some routine) (hq : p.user.hook.Runs fun _ => False)
    (nested : Op → PoolM Reply) : Steering first (followRoutine nested call routine) p := by
  have hnoted : first.Steered (p.note (.noted call p.status)) := h.note ⟨rfl, rfl⟩
  have hstart := hnoted.afterHook hr
  have hquiet : runInside nested (routine.behaviour routine.calls).during = pure () :=
    runInside_quiet (hq call routine hr routine.calls (Nat.le_refl _))
  refine .change ((steering_aim hstart _).bind fun _ q hq => ?_)
  rw [hquiet, pure_bind]
  split
  · exact .raise hq
  · exact .pure hq

/-- A hook that runs no operations moves the target at most. -/
theorem steering_follow (h : first.Steered p) (hq : p.user.hook.Runs fun _ => False)
    (nested : Op → PoolM Reply) (call : HookCall) : Steering first (follow nested call) p := by
  have hscaling {q : Pool} (hq : first.Steered q) :
      Steering first (followScaling p.user.hook.scaling call) q := by
    cases p.user.hook.scaling with
    | none => exact .pure hq
    | some policy => exact steering_followPolicy hq policy call
  refine .read ?_
  cases hr : p.user.hook.routine? call with
  | none => exact hscaling h
  | some routine =>
    exact (steering_followRoutine h hr hq nested).bind fun _ q hq => hscaling hq

/-- A callback of a hook that runs no operation. If it panics, a mark of that is left. -/
theorem ends_callHook (hq : p.user.hook.Runs fun _ => False) (nested : Op → PoolM Reply)
    (call : HookCall) :
    Ends (callHook nested call) p (fun _ q => (p.note (.hook call)).Steered q) fun _ q =>
      ∃ r, (p.note (.hook call)).Steered r ∧ q = r.note (.hookPanicked call) := by
  have hfollow := steering_follow (p := p.note (.hook call)) (.refl _) hq nested call
  refine .change (Ends.onPanic hfollow fun _ q hq => ?_)
  exact ⟨q, hq, rfl⟩

/-- What has happened while a callback of the hook runs, which may have moved the target. -/
def Steers (first : Pool) (deeds : List Entry) (b : Bench) (p : Pool) : Prop :=
  ∃ desired hook, first.Does deeds (b.steered desired hook) p

/-- A callback of the hook may move the target, and does nothing else. -/
theorem doing_callHook (h : first.Does deeds b p) (nested : Op → PoolM Reply) (call : HookCall) :
    Doing first (callHook nested call) p fun _ q => Steers first (deeds ++ [.hook call]) b q := by
  have hstart := h.deed (e := .hook call) rfl nofun
  refine (ends_callHook h.isQuiet.hook nested call).mono (fun _ q hq => hstart.steer hq) ?_
  rintro _ _ ⟨r, hr, rfl⟩
  obtain ⟨desired, hook, hr⟩ := hstart.steer hr
  exact ⟨Pool.panics_of_hook hr.history call, hr.isQuiet⟩

end PoolM

end LeasePool
