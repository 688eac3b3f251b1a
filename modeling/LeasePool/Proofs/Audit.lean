import LeasePool.Proofs.Minor
import LeasePool.Proofs.Step

/-!
# Audits of health checks

A health check is written down when it starts and when it ends, it is counted, and most checks that
find a resource broken are reported. This module follows the accounts through all actions: every
check that an action starts has ended when the action has, also if the check or the action panics,
and every failure that has to be reported is reported.
-/

namespace LeasePool

/-- Whether a check has found its resource unhealthy. -/
def foundUnhealthy : Except CheckError Verdict → Bool
  | .ok (.unhealthy _) => true
  | _ => false

namespace Entry

/-- Whether an entry is the start of a check by some of the checkers. -/
def isCheck (who : Checker → Bool) : Entry → Bool
  | .check _ checker => who checker
  | _ => false

/-- Whether an entry is the end of one of some checks. -/
def isVerdict (f : Checker → Except CheckError Verdict → Bool) : Entry → Bool
  | .verdict _ checker result => f checker result
  | _ => false

/-- Whether an entry reports a failed check. -/
def isFailure : Entry → Bool
  | .event (.healthCheckFailed ..) => true
  | _ => false

/-- No check starts or ends with a minor entry, and none is reported. -/
theorem isCheck_of_isMinor {e : Entry} (h : e.isMinor = true) :
    (∀ who, e.isCheck who = false) ∧ (∀ f, e.isVerdict f = false) ∧ e.isFailure = false := by
  cases e with
  | check | verdict => cases h
  | event event => cases event <;> first | exact ⟨fun _ => rfl, fun _ => rfl, rfl⟩ | cases h
  | _ => exact ⟨fun _ => rfl, fun _ => rfl, rfl⟩

end Entry

namespace Pool

variable {p q r : Pool} {m n : Int}

/-- How many checks some of the checkers have started. -/
def checks (who : Checker → Bool) (p : Pool) : Nat := p.history.countP (·.entry.isCheck who)

/-- How many of some checks have ended. -/
def verdicts (f : Checker → Except CheckError Verdict → Bool) (p : Pool) : Nat :=
  p.history.countP (·.entry.isVerdict f)

/-- How many failed checks were reported. -/
def failures (p : Pool) : Nat := p.history.countP (·.entry.isFailure)

/-- The counters agree with the checks that have ended. -/
structure CountsChecks (p : Pool) : Prop where
  ended : p.tally.healthChecks + p.tally.healthCheckErrors = .ofNat (p.verdicts fun _ _ => true)
  unhealthy : p.tally.healthCheckFailures = .ofNat (p.verdicts fun _ => foundUnhealthy)

/-- A new entry is counted with those before it. -/
theorem countP_note (f : Entry → Bool) (p : Pool) (e : Entry) :
    (p.note e).history.countP (fun r => f r.entry) =
      p.history.countP (fun r => f r.entry) + if f e then 1 else 0 := List.countP_cons

/-- Minor changes add nothing of what minor entries are not. -/
theorem Minor.countP {f : Entry → Bool} (h : p.Minor q) (hf : ∀ e, e.isMinor = true → f e = false) :
    q.history.countP (fun r => f r.entry) = p.history.countP (fun r => f r.entry) := by
  obtain ⟨hook, new, hframe, hnew⟩ := h.parts
  have hhistory : q.history = new ++ p.history := congrArg Frame.history hframe
  have hnone : new.countP (fun r => f r.entry) = 0 := by
    refine List.countP_eq_zero.2 fun r hr => ?_
    rw [hf r.entry (hnew r hr).2]
    exact Bool.false_ne_true
  rw [hhistory, List.countP_append, hnone, Nat.zero_add]

/-- A minor change starts no check. -/
theorem Minor.checks (h : p.Minor q) (who : Checker → Bool) : q.checks who = p.checks who :=
  h.countP fun _ he => (Entry.isCheck_of_isMinor he).1 who

/-- A minor change ends no check. -/
theorem Minor.verdicts (h : p.Minor q) (f : Checker → Except CheckError Verdict → Bool) :
    q.verdicts f = p.verdicts f :=
  h.countP fun _ he => (Entry.isCheck_of_isMinor he).2.1 f

/-- A minor change reports no failed check. -/
theorem Minor.failures (h : p.Minor q) : q.failures = p.failures :=
  h.countP fun _ he => (Entry.isCheck_of_isMinor he).2.2

/-- A minor change keeps the counters in agreement with the checks. -/
theorem Minor.countsChecks (h : p.Minor q) (hp : p.CountsChecks) : q.CountsChecks := by
  have hverdicts := h.verdicts
  obtain ⟨hook, new, hframe, -⟩ := h.parts
  have hchecks : q.tally.healthChecks = p.tally.healthChecks := congrArg Frame.healthChecks hframe
  have herrors : q.tally.healthCheckErrors = p.tally.healthCheckErrors :=
    congrArg Frame.healthCheckErrors hframe
  have hfailures : q.tally.healthCheckFailures = p.tally.healthCheckFailures :=
    congrArg Frame.healthCheckFailures hframe
  constructor
  · rw [hchecks, herrors, hverdicts, hp.ended]
  · rw [hfailures, hverdicts, hp.unhealthy]

/-- Concluding a check adds one end of a check. -/
theorem verdicts_conclude (f : Checker → Except CheckError Verdict → Bool) (p : Pool)
    (resource : Nat) (checker : Checker) (result : Except CheckError Verdict) :
    (PoolM.conclude resource checker result p).2.verdicts f =
      p.verdicts f + if f checker result then 1 else 0 :=
  countP_note (·.isVerdict f) { p with tally := PoolM.tallied p.tally result } _

/-- The end of a check is counted. -/
theorem CountsChecks.conclude (h : p.CountsChecks) (resource : Nat) (checker : Checker)
    (result : Except CheckError Verdict) :
    (PoolM.conclude resource checker result p).2.CountsChecks := by
  have hmoved : p.tally.healthChecks + 1 + p.tally.healthCheckErrors =
      p.tally.healthChecks + p.tally.healthCheckErrors + 1 := by
    rw [UInt64.add_assoc, UInt64.add_comm 1, ← UInt64.add_assoc]
  constructor
  · rw [verdicts_conclude, if_pos rfl, UInt64.ofNat_add, ← h.ended]
    rcases result with error | _ | reason
    · exact (UInt64.add_assoc ..).symm
    · exact hmoved
    · exact hmoved
  · rw [verdicts_conclude, UInt64.ofNat_add, ← h.unhealthy]
    rcases result with error | _ | reason
    · exact (UInt64.add_zero _).symm
    · exact (UInt64.add_zero _).symm
    · rfl

/-- What happens between two pools, of which the second has come back to the depth of the first: all
checks that have started have ended, the counters still agree with the checks, and some more
failures are to be reported. -/
structure Accounts (p : Pool) (n : Int) (q : Pool) : Prop extends p.ComesBack q where
  ended : ∀ who, q.checks who + p.verdicts (fun c _ => who c) =
    p.checks who + q.verdicts fun c _ => who c
  counted : p.CountsChecks → q.CountsChecks
  debt : (q.verdicts Checker.condemns : Int) - q.failures =
    p.verdicts Checker.condemns - p.failures + n

/-- All failures are reported. -/
def Clears (p q : Pool) : Prop := p.Accounts 0 q

/-- All failures are reported, and one from before. -/
def Reported (p q : Pool) : Prop := p.Accounts (-1) q

/-- What is still to be reported adds up. -/
theorem Accounts.trans (h : p.Accounts m q) (h' : q.Accounts n r) : p.Accounts (m + n) r where
  toComesBack := h.toComesBack.trans h'.toComesBack
  ended who := by
    have := h.ended who
    have := h'.ended who
    omega
  counted hp := h'.counted (h.counted hp)
  debt := by rw [h'.debt, h.debt, Int.add_assoc]

/-- A minor change leaves nothing to report. -/
theorem Minor.clears (h : p.Minor q) : p.Clears q where
  toComesBack := h.comesBack
  ended who := by rw [h.checks, h.verdicts]
  counted hp := h.countsChecks hp
  debt := by rw [h.verdicts, h.failures, Int.add_zero]

instance : Course Clears where
  minor := Minor.clears
  trans := Accounts.trans

/-- A failed creation has nothing to do with checks. -/
theorem Clears.creationFailed (p : Pool) (origin : Origin) (text : String) :
    p.Clears (p.note (.event (.resourceCreationFailed origin text))) where
  toComesBack := .note p p.tally _
  ended _ := rfl
  counted hp := ⟨hp.ended, hp.unhealthy⟩
  debt := (Int.add_zero _).symm

/-- A failed check is reported. -/
theorem Reported.note (p : Pool) (id : Nat) (reason : String) :
    p.Reported (p.note (.event (.healthCheckFailed id reason))) where
  toComesBack := .note p p.tally _
  ended _ := rfl
  counted hp := ⟨hp.ended, hp.unhealthy⟩
  debt := by
    have hreported : (p.note (.event (.healthCheckFailed id reason))).failures = p.failures + 1 :=
      countP_note (·.isFailure) p _
    have hverdicts : (p.note (.event (.healthCheckFailed id reason))).verdicts Checker.condemns =
      p.verdicts Checker.condemns := rfl
    omega

/-- A check ends. If it condemns its resource, that is still to be reported. -/
theorem Accounts.conclude {resource : Nat} {checker : Checker}
    (h : (p.note (.check resource checker)).Clears q) (result : Except CheckError Verdict) :
    p.Accounts (if checker.condemns result then 1 else 0)
      (PoolM.conclude resource checker result q).2 where
  toComesBack := ((ComesBack.note p p.tally _).trans h.toComesBack).trans (.note q _ _)
  ended who := by
    have hended := h.ended who
    have hstarted : (p.note (.check resource checker)).checks who =
      p.checks who + if who checker then 1 else 0 := countP_note (·.isCheck who) p _
    have hverdicts : (p.note (.check resource checker)).verdicts (fun c _ => who c) =
      p.verdicts fun c _ => who c := rfl
    have hchecks : (PoolM.conclude resource checker result q).2.checks who = q.checks who := rfl
    rw [hchecks, verdicts_conclude]
    omega
  counted hp := (h.counted ⟨hp.ended, hp.unhealthy⟩).conclude resource checker result
  debt := by
    have hdebt := h.debt
    have hverdicts : (p.note (.check resource checker)).verdicts Checker.condemns =
      p.verdicts Checker.condemns := rfl
    have hfailures : (p.note (.check resource checker)).failures = p.failures := rfl
    have hreported : (PoolM.conclude resource checker result q).2.failures = q.failures := rfl
    rw [verdicts_conclude, hreported]
    split <;> omega

/-- What happens inside of an operation settles its accounts itself. -/
theorem Clears.left {op : Op} (h : (p.entered op).Clears q) (reply : Reply) :
    p.Clears (q.left op reply) where
  toComesBack := h.toComesBack.left reply
  ended := h.ended
  counted hp := by
    obtain ⟨hended, hunhealthy⟩ := h.counted ⟨hp.ended, hp.unhealthy⟩
    exact ⟨hended, hunhealthy⟩
  debt := h.debt

end Pool

namespace PoolM

open Pool (Clears Reported)

variable {α : Type} {p : Pool} {nested : Op → PoolM Reply}

/-- A failed check is reported first. -/
theorem reports_emit {f : Unit → PoolM α} (hf : Keeps Clears (f ())) (id : Nat) (reason : String) :
    Keeps Reported (emit (.healthCheckFailed id reason) >>= f) := by
  intro p
  have hreport := Reported.note p id reason
  refine Spec.change trivial ((hf _).mono (fun _ q hq => ?_) fun _ q hq => ?_)
  · exact hreport.trans hq
  · exact hreport.trans hq

/-- A failed check is reported after its slot has been taken out. -/
theorem reports_takeOutBroken {f : List (Slot Nat) → PoolM α}
    (hf : ∀ slots, Keeps Reported (f slots)) (tenure : Tenure) (id resource : Nat)
    (reason : DestroyReason) : Keeps Reported (takeOutBroken tenure id resource reason >>= f) := by
  intro p
  have htaken : p.Clears (takeOutBroken tenure id resource reason p).2 :=
    Pool.Minor.clears (.of_frame rfl)
  have hdone : takeOutBroken tenure id resource reason p =
      (.done _, (takeOutBroken tenure id resource reason p).2) := rfl
  refine Spec.jump (bind_of_done hdone f) (fun _ => trivial) ((hf _ _).mono ?_ ?_)
  · exact fun _ q hq => htaken.trans hq
  · exact fun _ q hq => htaken.trans hq

/-- The report of a failed creation is no report of a check. -/
theorem clears_emit_failed (origin : Origin) (text : String) :
    Keeps Clears (emit (.resourceCreationFailed origin text)) :=
  fun p => Spec.of_done rfl trivial (Clears.creationFailed p origin text)

section Nested

variable (hn : ∀ op, Answers Clears (nested op))

include hn

/-- A check never panics. It has ended, and if it condemns its resource that is still to be
reported. -/
theorem leaves_probe (resource : Nat) (checker : Checker) :
    Leaves (probe nested resource checker) p
      (fun result q => p.Accounts (if checker.condemns result then 1 else 0) q)
      fun _ => False := by
  refine Spec.read ?_
  cases p.user.checkStyle with
  | none =>
    have hsettled : p.Clears p := Pool.Minor.clears (.of_frame rfl)
    exact Spec.pure (by cases checker <;> exact hsettled)
  | some style =>
    let called := p.note (.check resource checker)
    have hcall : Leaves (attempt nested (callCheck nested style resource checker)) p
        (fun _ => called.Clears) fun _ => False :=
      Spec.jump (q := called) rfl (fun _ => trivial)
        (answers_attempt hn (keeps_answerCheck hn style resource) called)
    refine Spec.bind hcall fun ending q hq => Spec.read ?_
    have hconclude (result : Except CheckError Verdict) (r : Pool) (hr : called.Clears r) :
        Leaves (conclude resource checker result >>= fun _ => pure result) r
          (fun result q => p.Accounts (if checker.condemns result then 1 else 0) q)
          fun _ => False :=
      Spec.change trivial (Spec.pure (Pool.Accounts.conclude hr result))
    dsimp only
    split
    · have hpassed : q.Clears (q.pass q.config.checkTimeout) :=
        Pool.Minor.clears (.of_frame rfl)
      exact Spec.change trivial (hconclude _ _ (hq.trans hpassed))
    · exact hconclude _ q hq

/-- What follows a check reports it if it condemns its resource. -/
theorem clears_probe {resource : Nat} {checker : Checker} {f : Except CheckError Verdict → PoolM α}
    (hkept : ∀ result, checker.condemns result = false → Keeps Clears (f result))
    (hfailed : ∀ result, checker.condemns result = true → Keeps Reported (f result)) :
    Keeps Clears (probe nested resource checker >>= f) := by
  intro p
  have hprobe := leaves_probe (p := p) hn resource checker
  refine Spec.bind (hprobe.mono (fun _ _ => id) fun _ _ => False.elim) fun result q hq => ?_
  cases hc : checker.condemns result with
  | false =>
    rw [hc] at hq
    exact Leaves.since hq (hkept result hc q)
  | true =>
    rw [hc] at hq
    exact (hfailed result hc q).mono (fun _ r hr => hq.trans hr) fun _ r hr => hq.trans hr

/-- The check of an acquisition reports its failure. -/
theorem clears_passes (id resource : Nat) : Keeps Clears (passes nested id resource) := by
  have hverify : Keeps Clears (verify nested id resource) := by
    refine clears_probe hn (fun result hc => ?_) fun result hc => ?_
    · rcases result with error | _ | reason
      · cases hc
      · exact (keeps_confirm id).bind fun _ => .pure _
      · cases hc
    · have hreport (reason : String) : Keeps Reported (do
          emit (.healthCheckFailed id reason)
          let removed ← takeOutBroken .claim id resource .unhealthy
          destroy nested .unhealthy removed
          pure false) :=
        reports_emit ((keeps_takeOutBroken _ _ _ _).bind fun _ =>
          (keeps_destroy hn _ _).bind fun _ => .pure _) _ _
      rcases result with error | _ | reason
      · exact hreport error.text
      · cases hc
      · exact hreport reason
  refine (Keeps.read _).bind fun checks => ?_
  split
  · exact hverify
  · exact .pure _

/-- A creation concludes no check and reports none. -/
theorem clears_createResource (state : SlotState) (origin : Origin) :
    Keeps Clears (createResource nested state origin) := by
  refine (keeps_produce hn origin).bind fun result => ?_
  cases result with
  | ok resource =>
    refine (Keeps.read _).bind fun closed => ?_
    split
    · exact (keeps_unreserve 1).bind fun _ => (keeps_trace _ _ _).bind fun _ =>
        (keeps_letGo hn _).bind fun _ => .pure _
    · exact (keeps_commit _ _ _).bind fun _ => .pure _
  | error error =>
    exact (keeps_unreserve 1).bind fun _ => (keeps_bump rfl).bind fun _ =>
      (clears_emit_failed _ _).bind fun _ => .pure _

/-- Filling up reports what nested checks find, and no more. -/
theorem clears_fill (origin : Origin) (stops : Pool → Bool) (n : Nat) :
    Keeps Clears (fill nested origin stops n) := by
  induction n with
  | zero => exact .pure _
  | succ n ih =>
    refine (Keeps.read _).bind fun stopped => ?_
    split
    · exact (keeps_unreserve _).bind fun _ => .pure _
    · refine (clears_createResource hn .idle origin).bind fun result => ?_
      rcases result with error | _ | created
      · exact (keeps_unreserve _).bind fun _ => .pure _
      · exact (keeps_unreserve _).bind fun _ => .pure _
      · exact ih.bind fun _ => .pure _

/-- A hand-out leaves no failure unreported. -/
theorem clears_handOut (id resource : Nat) : Keeps Clears (handOut nested id resource) :=
  (keeps_countAcquired id resource).bind fun _ => (keeps_callHook hn _).bind fun _ =>
    keeps_beginLease id resource

theorem clears_refuse : Keeps Clears (refuse nested) :=
  (Keeps.read _).bind fun _ => (Keeps.read _).bind fun _ => (keeps_bump rfl).bind fun _ =>
    (keeps_emit rfl).bind fun _ => (keeps_callHook hn _).bind fun _ => .pure _

/-- However many rounds an acquisition takes, all failures are reported. -/
theorem clears_acquireRounds (rounds rejected : Nat) :
    Keeps Clears (acquireRounds nested rounds rejected) := by
  induction rounds generalizing rejected with
  | zero => exact .exceed
  | succ rounds ih =>
    refine keeps_claim.bind fun claimed => ?_
    cases claimed with
    | some claimed =>
      refine (clears_passes hn _ _).bind fun passed => ?_
      split
      · exact (clears_handOut hn _ _).bind fun _ => .pure _
      · exact (keeps_letGo hn _).bind fun _ => ih rejected
    | none =>
      refine (keeps_reserve _ _).bind fun granted => ?_
      split
      · refine (clears_createResource hn _ _).bind fun result => ?_
        rcases result with error | _ | created
        · exact (clears_refuse hn).bind fun _ => .pure _
        · exact .pure _
        · refine (clears_passes hn _ _).bind fun passed => ?_
          split
          · exact (clears_handOut hn _ _).bind fun _ => .pure _
          · refine (Keeps.read _).bind fun max => ?_
            split
            · exact (clears_refuse hn).bind fun _ => (keeps_letGo hn _).bind fun _ => .pure _
            · exact (keeps_letGo hn _).bind fun _ => ih (rejected + 1)
      · exact (clears_refuse hn).bind fun _ => .pure _

/-- An acquisition reports the failures of its checks. -/
theorem clears_acquire (rounds : Nat) : Keeps Clears (acquire nested rounds) := by
  refine (Keeps.read _).bind fun closed => ?_
  split
  · exact .pure _
  · exact clears_acquireRounds hn rounds 0

/-- A release reports the failure of its check. -/
theorem clears_releaseUnheld (id : Nat) : Keeps Clears (releaseUnheld nested id) := by
  have hobjection (lease : Lease) : Keeps Clears (objection nested lease) := by
    unfold objection
    split
    · exact .pure _
    · refine (Keeps.read _).bind fun checks => ?_
      split
      · have hreport (reason : String) : Keeps Reported (do
            emit (.healthCheckFailed lease.slot reason)
            pure (some DestroyReason.unhealthy)) := reports_emit (.pure _) _ _
        refine clears_probe hn (fun result hc => ?_) fun result hc => ?_
        · rcases result with error | _ | reason
          · cases hc
          · exact .pure _
          · cases hc
        · rcases result with error | _ | reason
          · exact hreport error.text
          · cases hc
          · exact hreport reason
      · exact .pure _
  have hrelease (lease : Lease) : Keeps Clears (release nested lease) := by
    refine (hobjection lease).bind fun reason => ?_
    cases reason with
    | none => exact (keeps_giveBack lease).bind fun _ => keeps_callHook hn _
    | some reason =>
      exact (keeps_giveUp lease reason).bind fun _ => (keeps_destroy hn _ _).bind fun _ =>
        keeps_callHook hn _
  refine (keeps_endLease id).bind fun ended => ?_
  cases ended with
  | none => exact .pure _
  | some lease => exact (hrelease lease).bind fun _ => keeps_letGo hn _

/-- Keeping a handle under a name that is taken releases what had the name. -/
theorem clears_storeHandle (handle : String) (lease : Nat) :
    Keeps Clears (storeHandle nested handle lease) := by
  have hname : Keeps Clears (nameHandle handle lease) := .update fun _ => rfl
  refine hname.bind fun old => ?_
  cases old with
  | none => exact .pure _
  | some id => exact clears_releaseUnheld hn id

/-- Dropping a handle leaves no failure unreported. -/
theorem clears_dropHandle (handle : String) : Keeps Clears (dropHandle nested handle) := by
  have hunname : Keeps Clears (unnameHandle handle) := .update fun _ => rfl
  refine hunname.bind fun old => ?_
  cases old with
  | none => exact .pure _
  | some id => exact (clears_releaseUnheld hn id).bind fun _ => .pure _

/-- A keeper cycle leaves no failure unreported. -/
theorem clears_keeperCycle : Keeps Clears (keeperCycle nested) := by
  have hrun : Keeps Clears (runKeeper nested) := by
    refine (Keeps.read _).bind fun stops => ?_
    split
    · exact .pure _
    · refine (keeps_callHook hn _).bind fun _ => keeps_resize.bind fun sizes => ?_
      refine (keeps_destroy hn _ _).bind fun _ => (clears_fill hn _ _ _).bind fun result => ?_
      cases result with
      | error error => exact .pure _
      | ok created => exact (keeps_traceKeeper _).bind fun _ => .pure _
  refine (keeps_attempt hn hrun).bind fun result => ?_
  cases result <;> exact .pure _

/-- The check of one slot reports its failure. -/
theorem clears_examine (id resource : Nat) : Keeps Clears (examine nested id resource) := by
  refine clears_probe hn (fun result hc => ?_) fun result hc => ?_
  · rcases result with error | _ | reason
    · exact (keeps_unpark id resource error).bind fun _ => .pure _
    · exact (keeps_reinstate id resource).bind fun _ => .pure _
    · cases hc
  · rcases result with error | _ | reason
    · cases hc
    · cases hc
    · exact reports_takeOutBroken (fun slots => reports_emit
        ((keeps_destroy hn _ slots).bind fun _ => .pure _) _ _) _ _ _ _

/-- The checks of a cycle report their failures, one after another. -/
theorem clears_examineAll (fatal : Bool) (ids : List Nat) :
    Keeps Clears (examineAll nested fatal ids) := by
  induction ids with
  | nil => exact .pure _
  | cons id ids ih =>
    refine (Keeps.read _).bind fun stops => ?_
    split
    · exact .pure _
    · refine (keeps_park id).bind fun parked => ?_
      cases parked with
      | none => exact ih
      | some resource =>
        refine (clears_examine hn id resource).bind fun result =>
          (keeps_letGo hn _).bind fun _ => ?_
        split
        · exact .pure _
        · exact ih.bind fun _ => .pure _

/-- Replacing resources leaves no failure unreported. -/
theorem clears_replenish : Keeps Clears (replenish nested) := by
  refine (Keeps.read _).bind fun delegates => ?_
  split
  · exact .bind (.change fun _ => rfl) fun _ => .pure _
  · exact (Keeps.read _).bind fun _ => (keeps_reserve _ _).bind fun _ => clears_fill hn _ _ _

/-- A cycle of the health-care job leaves no failure unreported. -/
theorem clears_careCycle : Keeps Clears (careCycle nested) := by
  have hconclude (results : List (Except CheckError Verdict)) (expired : Nat)
      (replacement : Except CreationError Nat) :
      Keeps Clears (concludeCare results expired replacement) := by
    cases replacement with
    | error error => exact .pure _
    | ok replaced =>
      refine (keeps_traceCare _).bind fun _ => ?_
      split <;> exact .pure _
  have hrun : Keeps Clears (runCare nested) := by
    refine (Keeps.read _).bind fun stops => ?_
    split
    · exact .pure _
    · refine (keeps_evict hn).bind fun expired => (Keeps.read _).bind fun fatal =>
        (Keeps.read _).bind fun candidates => (clears_examineAll hn _ _).bind fun results => ?_
      dsimp only
      split
      · exact (clears_replenish hn).bind fun _ => hconclude _ _ _
      · exact (Keeps.pure _).bind fun _ => hconclude _ _ _
  refine (keeps_attempt hn hrun).bind fun result => ?_
  cases result <;> exact .pure _

theorem clears_keepHandle (handle : String) (result : Except PoolError Lease) :
    Keeps Clears (keepHandle nested handle result) := by
  cases result with
  | error error => exact .pure _
  | ok lease => exact (clears_storeHandle hn handle lease.id).bind fun _ => .pure _

theorem clears_createReserved (state : SlotState) (origin : Origin) :
    Keeps Clears (createReserved nested state origin) := by
  refine .bind (.change fun _ => rfl) fun _ => ?_
  refine (clears_createResource hn state origin).bind fun result => ?_
  rcases result with error | _ | created
  · exact .pure _
  · exact .pure _
  · dsimp only
    split
    · exact (keeps_letGo hn _).bind fun _ => .pure _
    · exact .pure _

omit hn in
theorem clears_withLease {handle : String} {f : Lease → PoolM Reply}
    (hf : ∀ lease, Keeps Clears (f lease)) : Keeps Clears (withLease handle f) := by
  refine (Keeps.read _).bind fun lease => ?_
  cases lease with
  | none => exact .pure _
  | some lease => exact hf lease

/-- One case for each operation. -/
theorem clears_perform (rounds : Nat) (op : Op) : Keeps Clears (perform nested rounds op) := by
  have hchange {g : Pool → Pool} {reply : Reply} (hg : ∀ p, (g p).frame = p.frame) :
      Keeps Clears (change g >>= fun _ => pure reply) := (Keeps.change hg).bind fun _ => .pure _
  cases op with
  | acquire handle => exact (clears_acquire hn rounds).bind (clears_keepHandle hn handle)
  | acquireOnThread handle =>
    refine (keeps_attempt hn (clears_acquire hn rounds)).elsewhere.bind fun result => ?_
    exact (Keeps.ofExcept result).bind (clears_keepHandle hn handle)
  | share handle copy =>
    exact clears_withLease fun lease => (keeps_hold _).bind fun _ =>
      (clears_storeHandle hn copy lease.id).bind fun _ => .pure _
  | drop handle =>
    refine (clears_dropHandle hn handle).bind fun dropped => ?_
    cases dropped <;> exact .pure _
  | dropOnThread handle =>
    refine (keeps_attempt hn (clears_dropHandle hn handle)).elsewhere.bind fun ending => ?_
    rcases ending with panic | _ | _ <;> exact .pure _
  | invalidate handle => exact clears_withLease fun lease => hchange fun _ => rfl
  | inspect handle => exact clears_withLease fun lease => .pure _
  | keeper => exact (clears_keeperCycle hn).map
  | care => exact (clears_careCycle hn).map
  | awaitKeeper =>
    exact (Keeps.read _).bind fun signal => (Keeps.ofExcept _).bind fun woken =>
      hchange fun _ => rfl
  | drain =>
    have hdrain : Keeps Clears (PoolM.drain nested) :=
      (keeps_takeOut _ _).bind fun _ => keeps_destroy hn _ _
    exact hdrain.bind fun _ => .pure _
  | setDesired count => exact (keeps_setDesired count).map
  | probe handle =>
    refine clears_withLease fun lease => (keeps_hold _).bind fun _ => ?_
    refine clears_probe hn (fun result _ => ?_) fun result hc => ?_
    · exact (keeps_letGo hn _).bind fun _ => .pure _
    · cases hc
  | create state origin => exact clears_createReserved hn state origin
  | destroy id reason =>
    exact (keeps_takeOut _ _).bind fun _ => (keeps_destroy hn _ _).bind fun _ => .pure _
  | isClosed | status | metrics | exported | desired | slot => exact Keeps.read _
  | setState | reserve => exact Keeps.update fun _ => rfl
  | stopKeeper | stopCare | close | dropReservation | advance | setCheck | setCheckDefault
    | pushFactory | setFactoryDefault | breakDestructor => exact hchange fun _ => rfl

omit hn in
/-- Whatever user code does, an operation settles its accounts, and does not panic. -/
theorem answers_run (budget : Nat) (op : Op) : Answers Clears (run budget op) := by
  induction budget generalizing op with
  | zero => exact fun _ => Spec.exceed
  | succ budget ih =>
    exact answers_answering ih (clears_perform ih budget op) fun _ _ reply h => h.left reply

omit hn in
/-- A public operation leaves no failure unreported, whatever it nests. -/
theorem clears_run (budget : Nat) (op : Op) : Keeps Clears (run budget op) :=
  (answers_run budget op).keeps

end Nested

end PoolM

end LeasePool
