import LeasePool.Proofs.Broken

/-!
# What an acquisition hands out

The last round of an acquisition owns the slot that it hands out. If the pool checks on access, that
round has called the check on the resource of the slot and got a healthy verdict. What was found
broken earlier, by whatever part of the pool, is not handed out.
-/

namespace LeasePool

open Pool (publicRun)

namespace PoolM

variable {nested : Op → PoolM Reply} {p q : Pool} {id resource : Nat}

/-- A health check that runs puts its call and its verdict into the history. -/
theorem Nests.probe_history (hn : Nests publicRun nested) {checker : Checker}
    (hb : p.Backs resource checker) (hc : checker = .care → p.careStops = false)
    (hs : p.user.checkStyle ≠ none) :
    Spec publicRun (probe nested resource checker) p (fun result q => ∃ during c v,
        q.history = v :: (during ++ c :: p.history) ∧ c.entry = .check resource checker ∧
        v.entry = .verdict resource checker result)
      fun _ _ => False := by
  rw [← bind_pure (PoolM.probe nested resource checker)]
  refine hn.probe_bind hb hc (fun hnone => absurd hnone hs) fun result q hq hcalls => ?_
  obtain ⟨during, c, hhistory, hcalled, -⟩ := hcalls
  refine .change (.single (.conclude resource checker result (hb.of_holdings hq))) (.pure ?_)
  exact ⟨during, c, _, congrArg (_ :: ·) hhistory, hcalled, rfl⟩

/-- A check on access lets a slot pass only if its resource is healthy. -/
theorem healthy_of_verify (h : verify nested id resource p = (.done true, q)) :
    ∃ r, probe nested resource .access p = (.done (.ok .healthy), r) ∧ q = (confirm id r).2 := by
  obtain ⟨result, r, hprobe, hrest⟩ := exists_of_bind_eq_done h
  cases hobjection : Verdict.objection? result with
  | none =>
    rw [hobjection] at hrest
    rw [(Verdict.objection?_eq_none_iff result).1 hobjection] at hprobe
    cases hrest
    exact ⟨r, hprobe, rfl⟩
  | some reason =>
    rw [hobjection] at hrest
    let noted := r.note (.event (.healthCheckFailed id reason))
    have hdestroy : (destroy nested .unhealthy (noted.table.invalidate id).1.toList >>= fun _ =>
        (pure false : PoolM Bool)) (takeOutBroken .claim id resource .unhealthy noted).2 =
          (.done true, q) := hrest
    obtain ⟨_, _, -, hfalse⟩ := exists_of_bind_eq_done hdestroy
    cases hfalse

end PoolM

namespace Pool

open PoolM (Nests LastRound)

variable {nested : Op → PoolM Reply} {p q : Pool} {lease : Lease}

/-- The last round of an acquisition has checked the resource that it hands out. The operation owns
the slot in addition to what it held before. It calls the check and gets a healthy verdict; then it
marks the slot as healthy and hands it out. -/
structure HandsOutChecked (nested : Op → PoolM Reply) (p claimed healthy q : Pool) (lease : Lease) :
    Prop where
  since : p.Steps claimed
  owned : claimed.holdings = .slot .claim lease.slot lease.resource :: p.holdings
  checked : PoolM.probe nested lease.resource .access claimed = (.done (.ok .healthy), healthy)
  history : ∃ during c v, healthy.history = v :: (during ++ c :: claimed.history) ∧
    c.entry = .check lease.resource .access ∧
    v.entry = .verdict lease.resource .access (.ok .healthy)
  handedOut : PoolM.handOut nested lease.slot lease.resource (PoolM.confirm lease.slot healthy).2 =
    (.done lease, q)

/-- If the pool checks on access, what is handed out has been checked in the same round. -/
theorem handsOutChecked_of_lastRound (hn : Nests publicRun nested) (hp : p.IsTame)
    (hs : p.user.checkStyle ≠ none) (hc : p.config.checkOnAccess = true) {claimed passed : Pool}
    (h : LastRound publicRun nested p lease claimed passed q) :
    ∃ healthy, HandsOutChecked nested p claimed healthy q lease := by
  have hsteps : p.Steps claimed := h.since
  have hstyle : claimed.user.checkStyle ≠ none := hsteps.checkStyle ▸ hs
  have hverify : PoolM.verify nested lease.slot lease.resource claimed = (.done true, passed) := by
    have hpasses := h.passes
    rw [PoolM.passes, PoolM.bind_apply, PoolM.read_apply, hsteps.config, hc] at hpasses
    exact hpasses
  obtain ⟨healthy, hprobe, rfl⟩ := PoolM.healthy_of_verify hverify
  have hb : claimed.Backs lease.resource .access := ⟨lease.slot, by simp [h.owned]⟩
  have hhistory := (hn.probe_history hb nofun hstyle (publicRun.keep hp hsteps)).2
  rw [hprobe] at hhistory
  exact ⟨healthy, hsteps, h.owned, hprobe, hhistory, h.handedOut⟩

/-- In a pool with a health check, broken resources never come back.

An acquisition at any moment of a run, by a caller or inside of a call of user code, tells in the
history of what it hands out. If the pool checks on access, it has called the check on exactly that
resource in its last round, while it owned the slot, and the verdict was healthy.

Whatever the run does, each entry that finds a resource broken is about a slot: the verdict of a
check on access or on release that is not healthy, an unhealthy verdict of the health-care job, or
the return of a lease that was invalidated. No later acquisition hands out that slot or that
resource. -/
theorem Occurs.broken_stay_away (h : q.Occurs) (hs : q.user.checkStyle ≠ none) :
    (∀ p, p.Arises → p.Steps q → ∀ nested, Nests publicRun nested → ∀ rounds lease after,
      PoolM.acquire nested rounds p = (.done (.ok lease), after) →
      after.history.head?.map (·.entry) = some (.handedOut lease.slot lease.resource) ∧
      (q.config.checkOnAccess = true →
        ∃ claimed healthy, HandsOutChecked nested p claimed healthy after lease)) ∧
    (∀ x ∈ q.history, ∀ resource, x.entry.condemned? = some resource →
      ∃ slot, x.Condemns slot resource) ∧
    q.history.Pairwise fun later earlier => ∀ slot resource, earlier.Condemns slot resource →
      ∀ id other, later.entry = .handedOut id other → id ≠ slot ∧ other ≠ resource := by
  refine ⟨fun p hp hpq nested hn rounds lease after hacquire => ?_, h.isClean.named, h.isClean.kept⟩
  have hacquired := (hn.acquire rounds p hp.isTame).2
  rw [hacquire] at hacquired
  obtain ⟨claimed, passed, hround⟩ := hacquired.round lease rfl
  rw [hpq.checkStyle] at hs
  rw [hpq.config]
  refine ⟨hround.written, fun hc => ⟨claimed, ?_⟩⟩
  exact handsOutChecked_of_lastRound hn hp.isTame hs hc hround

/-- The check of the first resource acquires another one before it fails. Neither that acquisition
nor the next round of the outer one hands out what has failed. -/
theorem broken_stay_away_check_acquires :
    let user : UserCode :=
      { UserCode.plain with
        checkStyle := some .direct
        checks := [(0, ⟨[], ⟨[.acquire "inner"], .answer (.ok (.unhealthy "worn"))⟩⟩)] }
    let p := new "pool" { careEnabled := true, checkOnAccess := true } user
    let q := (PoolM.run 4 (.acquire "outer") p).2
    let after := (PoolM.acquire (PoolM.run 3) 3 p).2
    q.condemned = [0] ∧ (∃ x ∈ q.history, ∃ slot, x.Condemns slot 0) ∧
    (q.history.Pairwise fun later earlier => ∀ slot resource, earlier.Condemns slot resource →
      ∀ id other, later.entry = .handedOut id other → id ≠ slot ∧ other ≠ resource) ∧
    ∃ claimed healthy, HandsOutChecked (PoolM.run 3) p claimed healthy after ⟨1, 3, 2, false⟩ := by
  intro user p q after
  have huser : user.IsPublic :=
    { UserCode.plain_runs _ with
      check := List.forall_mem_singleton.2 <|
        List.forall_mem_singleton.2 (.of_installs_eq_nil rfl rfl) }
  have hp : p.Reachable := reachable_new "pool" _ huser (by decide)
  have hop : Op.IsPublic (.acquire "outer") := .of_installs_eq_nil rfl rfl
  have hq : q.Occurs := .intro hp hop 4
  obtain ⟨hacquires, hnamed, hkept⟩ := hq.broken_stay_away (by decide +kernel)
  have hcondemned : q.condemned = [0] := by decide +kernel
  have hmem : 0 ∈ q.condemned := hcondemned ▸ List.mem_singleton_self 0
  obtain ⟨x, hx, he⟩ := List.mem_filterMap.1 hmem
  have hlease : (PoolM.acquire (PoolM.run 3) 3 p).1 =
      .done (.ok ⟨1, 3, 2, false⟩) := by decide +kernel
  have hsteps : p.Steps q := steps_run 4 hop hp.idle.1
  have hconfig : q.config.checkOnAccess = true := congrArg Config.checkOnAccess hsteps.config
  have hchecked := (hacquires p hp.arises hsteps _ (PoolM.nests_run 3) 3 _ _
    (PoolM.eq_done_of_fst hlease)).2 hconfig
  exact ⟨hcondemned, ⟨x, hx, hnamed x hx 0 he⟩, hkept, hchecked⟩

end Pool

end LeasePool
