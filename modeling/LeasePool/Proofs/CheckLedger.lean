import LeasePool.Proofs.Audit
import LeasePool.Proofs.Calls
import LeasePool.Proofs.Reservations

/-!
# The ledger of health checks

Between two operations every health check that was ever started has ended, whatever user code has
done meanwhile, and the counters and the reports agree with how the checks have ended. What a check
says is settled by how its user code ends: a timeout is an unhealthy verdict, and a panic is an
error.
-/

namespace LeasePool

/-- Whether a check belongs to an acquisition, to a release or to a health-care cycle. -/
def Checker.isInternal : Checker → Bool
  | .access | .release | .care => true
  | .caller => false

/-- Whether a check without a verdict is reported. The health-care job reports none. -/
def Checker.reportsErrors : Checker → Bool
  | .access | .release => true
  | .care | .caller => false

namespace Pool

variable {p q : Pool}

/-- What the counters and the reports say of the health checks that were started. A caller may also
have checked the resources of its handles itself; such checks are counted, but never reported. -/
structure ChecksAreBooked (p : Pool) : Prop where
  /-- Every check that was started has ended, whoever has started it. -/
  ended : ∀ who, p.checks who = p.verdicts fun c _ => who c
  /-- Each of them is counted once, as a check with a verdict or as an error. -/
  counted : p.tally.healthChecks + p.tally.healthCheckErrors =
    .ofNat (p.checks Checker.isInternal + p.checks (!·.isInternal))
  unhealthy : p.tally.healthCheckFailures =
    .ofNat ((p.verdicts fun c r => c.isInternal && foundUnhealthy r) +
      p.verdicts fun c r => !c.isInternal && foundUnhealthy r)
  /-- Each failure is reported once, and so is each check on access or on release that gave no
  verdict. -/
  reported : p.failures = (p.verdicts fun c r => c.isInternal && foundUnhealthy r) +
    p.verdicts fun c r => c.reportsErrors && PoolM.lacksVerdict r

/-- Checks of two kinds are counted apart. -/
theorem verdicts_eq_add {f g k : Checker → Except CheckError Verdict → Bool}
    (hf : ∀ c r, f c r = (g c r || k c r)) (hd : ∀ c r, g c r = true → k c r = false) (p : Pool) :
    p.verdicts f = p.verdicts g + p.verdicts k := by
  have hone (e : Entry) : (if e.isVerdict f = true then 1 else 0) =
      (if e.isVerdict g = true then 1 else 0) + if e.isVerdict k = true then 1 else 0 := by
    cases e with
    | verdict resource checker result =>
      by_cases hg : g checker result = true
      · simp [Entry.isVerdict, hf, hg, hd checker result hg]
      · by_cases hk : k checker result = true <;> simp [Entry.isVerdict, hf, hg, hk]
    | _ => rfl
  unfold verdicts
  induction p.history with
  | nil => rfl
  | cons record history ih =>
    rw [List.countP_cons, List.countP_cons, List.countP_cons, ih, hone]
    omega

/-- A new pool has no accounts to clear, so a pool that has cleared all since then is even. -/
theorem IsNew.even (hp : p.IsNew) (h : p.Clears q) :
    (∀ who, q.checks who = q.verdicts fun c _ => who c) ∧ q.CountsChecks ∧
      q.failures = q.verdicts Checker.condemns := by
  have hended := h.ended
  have hcounted := h.counted
  have hdebt := h.debt
  obtain ⟨name, config, user, delegates, clock, -⟩ := hp
  refine ⟨fun who => ?_, hcounted ⟨rfl, rfl⟩, ?_⟩
  · exact (hended who).trans (Nat.zero_add _)
  · have hnone : (q.verdicts Checker.condemns : Int) - q.failures = 0 := hdebt
    omega

/-- Between two operations a pool has cleared all accounts since its creation. -/
theorem ReachableReserving.clears (h : p.ReachableReserving) :
    ∃ start, IsNew start ∧ start.Clears p := by
  induction h with
  | create h => exact ⟨_, h, Minor.clears (.of_frame rfl)⟩
  | @run p q op budget reply _ _ h ih =>
    obtain ⟨start, hstart, hclears⟩ := ih
    have hrun : p.Clears q := (PoolM.clears_run budget op).of_done h
    exact ⟨start, hstart, hclears.trans hrun⟩

/-- A pool that is even has booked its checks by who has started them. -/
theorem checksAreBooked (hended : ∀ who, p.checks who = p.verdicts fun c _ => who c)
    (hcounted : p.CountsChecks) (hreported : p.failures = p.verdicts Checker.condemns) :
    p.ChecksAreBooked where
  ended := hended
  counted := by
    rw [hcounted.ended, hended, hended]
    refine congrArg UInt64.ofNat (verdicts_eq_add (fun c _ => ?_) (fun c _ => ?_) p)
    · cases c <;> rfl
    · cases c <;> simp [Checker.isInternal]
  unhealthy := by
    rw [hcounted.unhealthy]
    refine congrArg UInt64.ofNat (verdicts_eq_add (fun c r => ?_) (fun c r => ?_) p)
    · cases c <;> simp [Checker.isInternal]
    · cases c <;> simp [Checker.isInternal]
  reported := by
    rw [hreported]
    refine verdicts_eq_add (fun c r => ?_) (fun c r => ?_) p
    · cases c <;> rcases r with _ | _ | _ <;> rfl
    · cases c <;> rcases r with _ | _ | _ <;> simp [foundUnhealthy, PoolM.lacksVerdict]

end Pool

namespace PoolM

open Pool (anyRun)

variable {p q : Pool}

/-- Both of what an action leaves. -/
theorem Leaves.and {α : Type} {m : PoolM α} {done done' : α → Pool → Prop}
    {raised raised' : Pool → Prop} (h : Leaves m p done raised) (h' : Leaves m p done' raised') :
    Leaves m p (fun value q => done value q ∧ done' value q) fun q => raised q ∧ raised' q := by
  intro hv
  obtain ⟨-, h⟩ := h hv
  obtain ⟨-, h'⟩ := h' hv
  refine ⟨trivial, ?_⟩
  revert h h'
  cases (m p).1 with
  | done value => exact And.intro
  | panicked panic => exact And.intro
  | exceeded => exact fun _ => id

/-- What a check has left to wait for says what its user code has ended with. -/
def Tells (style : CheckStyle) (limit : Duration) (examination : Examination)
    (ending : Except Panic Probe) : Prop :=
  Verdict.settle ((started ending).wait limit) = examination.result style limit

/-- What is left to wait for after a check says what user code has ended with. -/
theorem tells_examined (style : CheckStyle) (resource : Nat) (examination : Examination)
    (limit : Duration) (p : Pool) :
    Spec anyRun (examined style resource examination) p
      (fun probe _ => Tells style limit examination (.ok probe))
      fun panic _ => Tells style limit examination (.error panic) := by
  cases examination with
  | answer result => cases style <;> exact Spec.pure rfl
  | silence =>
    cases style with
    | direct => exact Spec.pure rfl
    | onWorker => exact Spec.change trivial (Spec.pure rfl)
  | abandonment => exact Spec.pure rfl
  | panic panic =>
    cases style with
    | direct => exact Spec.raise rfl
    | onWorker => exact Spec.pure rfl

/-- A check that was started leaves something to wait for, whatever it has done meanwhile. -/
theorem leaves_attempt_callCheck (budget : Nat) (style : CheckStyle) (resource : Nat)
    (checker : Checker) (limit : Duration) :
    Leaves (attempt (run budget) (callCheck (run budget) style resource checker)) p
      (fun ending q => q.config = p.config ∧
        Tells style limit (p.user.nextCheck resource).1.outcome ending) fun _ => False := by
  let called := p.note (.check resource checker)
  let behaviour := (p.user.nextCheck resource).1
  have hkept : Leaves (attempt (run budget) (callCheck (run budget) style resource checker)) p
      (fun _ q => q.config = p.config) fun _ => False := by
    have hcaught := answers_attempt (answers_run budget)
      (keeps_answerCheck (answers_run budget) style resource) called
    refine Spec.jump (q := called) rfl (fun _ => trivial) (hcaught.weaken fun _ q hq => ?_)
    exact hq.config
  have hinside (r : Pool) : Spec anyRun (runInside (run budget) behaviour.during) r
      (fun _ _ => True) fun panic _ => Tells style limit behaviour.outcome (.error panic) :=
    (answers_runInside (answers_run budget) _ r).mono (fun _ _ _ => trivial) fun _ _ => False.elim
  have hcall : Spec anyRun (callCheck (run budget) style resource checker) p
      (fun probe _ => Tells style limit behaviour.outcome (.ok probe))
      fun panic _ => Tells style limit behaviour.outcome (.error panic) :=
    Spec.change trivial (Spec.update trivial (Spec.bind (hinside _) fun _ r _ =>
      tells_examined style resource behaviour.outcome limit r))
  have htells : Leaves (attempt (run budget) (callCheck (run budget) style resource checker)) p
      (fun ending _ => Tells style limit behaviour.outcome ending) fun _ => True := by
    refine (Spec.attempt (fun panic _ => Tells style limit behaviour.outcome (.error panic)) hcall
      fun _ q h => ?_).weaken fun ending _ h => ?_
    · exact (answers_unwind (answers_run budget) _ q).mono (fun _ _ _ => h) fun _ _ _ => trivial
    · cases ending <;> exact h
  exact (Leaves.and hkept htells).mono (fun _ _ => id) fun _ _ h => h.1

/-- Whatever user code does meanwhile, a check ends with what is settled at its start, and that is
what is written down. -/
theorem leaves_probe_checked (budget : Nat) (resource : Nat) (checker : Checker)
    (hs : p.user.checkStyle ≠ none) :
    Leaves (probe (run budget) resource checker) p
      (fun result q => result = p.user.checked p.config.checkTimeout resource ∧
        q.history.head?.map (·.entry) = some (.verdict resource checker result))
      fun _ => False := by
  refine Spec.read ?_
  unfold UserCode.checked
  cases hstyle : p.user.checkStyle with
  | none => exact absurd hstyle hs
  | some style =>
    refine Spec.bind (leaves_attempt_callCheck budget style resource checker p.config.checkTimeout)
      fun ending q ⟨hconfig, htells⟩ => Spec.read ?_
    have hconclude (r : Pool) :
        Leaves (conclude resource checker (Verdict.settle ((started ending).wait
            p.config.checkTimeout)) >>= fun _ => pure (Verdict.settle ((started ending).wait
            p.config.checkTimeout))) r
          (fun result q =>
            result = (p.user.nextCheck resource).1.outcome.result style p.config.checkTimeout ∧
              q.history.head?.map (·.entry) = some (.verdict resource checker result))
          fun _ => False :=
      Spec.change trivial (Spec.pure ⟨htells, rfl⟩)
    rw [hconfig]
    dsimp only
    split
    · exact Spec.change trivial (hconclude _)
    · exact hconclude q

end PoolM

namespace Pool

variable {p : Pool}

/-- Between two operations the counters and the reports agree with the health checks of the run. A
check never panics. What it is counted as is settled by how its user code ends, where a timeout is
an unhealthy verdict and a panic is an error. -/
theorem ReachableReserving.checks_booked (h : p.ReachableReserving) :
    p.ChecksAreBooked ∧
      ∀ (o q : Pool) (budget resource : Nat) (checker : Checker) ending,
        o.user.checkStyle ≠ none →
          PoolM.probe (PoolM.run budget) resource checker o = (ending, q) → ending ≠ .exceeded →
            ending = .done (o.user.checked o.config.checkTimeout resource) ∧
              q.history.head?.map (·.entry) = some (.verdict resource checker
                (o.user.checked o.config.checkTimeout resource)) := by
  obtain ⟨start, hstart, hclears⟩ := h.clears
  obtain ⟨hended, hcounted, hreported⟩ := hstart.even hclears
  refine ⟨checksAreBooked hended hcounted hreported, ?_⟩
  intro o q budget resource checker ending hs hrun hends
  obtain ⟨-, hprobe⟩ := PoolM.leaves_probe_checked (p := o) budget resource checker hs trivial
  rw [hrun] at hprobe
  cases ending with
  | done result =>
    obtain ⟨rfl, hentry⟩ := hprobe
    exact ⟨rfl, hentry⟩
  | panicked panic => exact hprobe.elim
  | exceeded => exact absurd rfl hends

/-- The first check of a cycle runs another cycle, in which one check is silent and one panics. The
outer cycle then checks the resource of the panic again. An acquisition meets a check without a
verdict, which it reports, before a resource passes. -/
theorem checks_booked_in_nested_cycles :
    let broken : Panic := .ofText "broken"
    let user : UserCode :=
      { UserCode.plain with
        checkStyle := some .direct
        checks := [(0, ⟨[], ⟨[.care], .answer (.ok (.unhealthy "worn"))⟩⟩),
          (1, ⟨[], ⟨[], .silence⟩⟩), (2, ⟨[], ⟨[], .panic broken⟩⟩),
          (3, ⟨[], ⟨[], .answer (.error (.failed "probe broke" []))⟩⟩)] }
    let config : Config := { desiredCount := 3, maxCount := 3, checkOnAccess := true }
    let filled := (PoolM.run 4 .keeper (new "core" config user)).2
    let tended := (PoolM.run 4 .care filled).2
    let q := (PoolM.run 4 (.acquire "a") tended).2
    q.checks Checker.isInternal = 6 ∧ q.tally.healthChecks + q.tally.healthCheckErrors = 6 ∧
      q.tally.healthCheckFailures = 2 ∧ q.failures = 2 + 1 ∧
      (PoolM.probe (PoolM.run 1) 2 .caller q).1 = .done (.error (.ofPanic broken)) := by
  intro broken user config filled tended q
  have huser : user.IsPublic :=
    { UserCode.plain_runs _ with
      check := by
        intro c hc op hop
        simp only [user, List.mem_cons, List.not_mem_nil, or_false] at hc
        rcases hc with rfl | rfl | rfl | rfl <;> simp [Routine.ops] at hop
        subst hop
        exact .of_installs_eq_nil rfl rfl }
  have hstart : (new "core" config user).ReachableReserving :=
    .create (.intro "core" config user false {} huser (by decide))
  have hfilled : filled.ReachableReserving :=
    hstart.next (.inl (.of_installs_eq_nil rfl rfl)) (by decide +kernel)
  have htended : tended.ReachableReserving :=
    hfilled.next (.inl (.of_installs_eq_nil rfl rfl)) (by decide +kernel)
  have hq : q.ReachableReserving :=
    htended.next (.inl (.of_installs_eq_nil rfl rfl)) (by decide +kernel)
  obtain ⟨hbooked, htells⟩ := hq.checks_booked
  have hstarted : q.checks Checker.isInternal = 6 := by decide +kernel
  have hothers : q.checks (!·.isInternal) = 0 := by decide +kernel
  refine ⟨hstarted, ?_, ?_, ?_, ?_⟩
  · rw [hbooked.counted, hstarted, hothers]
    rfl
  · rw [hbooked.unhealthy]
    decide +kernel
  · rw [hbooked.reported]
    decide +kernel
  · have hends : (PoolM.probe (PoolM.run 1) 2 .caller q).1 ≠ .exceeded := by decide +kernel
    have hending := (htells q _ 1 2 .caller _ (by decide +kernel) (Prod.eta _).symm hends).1
    rw [hending]
    decide +kernel

end Pool

end LeasePool
