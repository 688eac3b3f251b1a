import LeasePool.Proofs.Audit
import LeasePool.Proofs.History
import LeasePool.Proofs.Troubles

/-!
# What a health-care cycle reports

A cycle of the health-care job reports the checks that gave no verdict, the first of them and their
number, unless a replacement has failed. This holds whatever user code does, so the operations that
run inside of its calls are followed too. They come back to the depth at which they started.
-/

namespace LeasePool

namespace Trouble

/-- Why a check gave no verdict. -/
def error? : Trouble → Option CheckError
  | check error => some error
  | replacement _ => none

/-- Why a replacement failed. -/
def failure? : Trouble → Option String
  | check _ => none
  | replacement text => some text

end Trouble

namespace Pool

/-- The errors of the checks without a verdict that an action has made since an earlier state. -/
def checkErrorsSince (p earlier : Pool) : List CheckError :=
  (p.troublesSince earlier).filterMap (·.error?)

/-- The texts of the failures of replacements that an action has met since an earlier state. -/
def failedReplacementsSince (p earlier : Pool) : List String :=
  (p.troublesSince earlier).filterMap (·.failure?)

end Pool

namespace PoolM

variable {nested : Op → PoolM Reply} {p : Pool}

/-- The troubles of some checks and of a replacement that may have failed. -/
def cycleTroubles (errors : List CheckError) (failure : Option CreationError) : List Trouble :=
  errors.map .check ++ failure.toList.map fun error => .replacement error.text

/-- What a cycle with such troubles reports: a failed replacement comes before the checks. -/
def Reports (errors : List CheckError) (failure : Option CreationError)
    (result : Except CareFailure CareReport) : Prop :=
  match failure, errors with
  | some error, _ => result = .error (.replacement error)
  | none, first :: others => result = .error (.checks first (others.length + 1))
  | none, [] => ∃ report, result = .ok report

/-- Why a replacement has failed, if it has. -/
def failure? {α : Type} : Except CreationError α → Option CreationError
  | .error error => some error
  | .ok _ => none

/-- The end of a check is a trouble if it gave no verdict. -/
theorem meets_conclude (resource : Nat) (checker : Checker) (result : Except CheckError Verdict) :
    Meets (conclude resource checker result) p fun _ ts =>
      ts = (Entry.verdict resource checker result).trouble?.toList :=
  .of_done rfl (.note p _ _) rfl

/-- The trouble of a creation for a part of the pool. -/
def creationTroubles {α : Type} (origin : Origin) : Except CreationError α → List Trouble
  | .error error => (Entry.event (.resourceCreationFailed origin error.text)).trouble?.toList
  | .ok _ => []

/-- A creation for the health-care job is a trouble exactly if it fails. -/
theorem creationTroubles_healthCareJob {α : Type} (result : Except CreationError α) :
    creationTroubles .healthCareJob result = cycleTroubles [] (failure? result) := by
  cases result <;> rfl

/-- The end of a cycle reports a failed replacement, or else the checks. -/
theorem meets_concludeCare (results : List (Except CheckError Verdict)) (expired : Nat)
    (replacement : Except CreationError Nat) :
    Meets (concludeCare results expired replacement) p fun result ts =>
      ts = [] ∧ Reports (checkErrors results) (failure? replacement) result := by
  cases replacement with
  | error error => exact .pure ⟨rfl, rfl⟩
  | ok replaced =>
    refine (keeps_traceCare _).before fun _ q => ?_
    unfold Reports
    cases checkErrors results with
    | nil => exact .pure ⟨rfl, _, rfl⟩
    | cons first others => exact .pure ⟨rfl, rfl⟩

section Nested

variable (hn : ∀ op, Answers Pool.Spared (nested op))

include hn

/-- A check writes its own verdict down, and no other. -/
theorem meets_probe (resource : Nat) (checker : Checker) :
    Meets (probe nested resource checker) p fun result ts =>
      ts = (Entry.verdict resource checker result).trouble?.toList := by
  refine .read ?_
  cases p.user.checkStyle with
  | none => exact .pure (by cases checker <;> rfl)
  | some style =>
    have hcall : Smooth (callCheck nested style resource checker) :=
      (smooth_note rfl).bind fun _ => keeps_answerCheck hn style resource
    refine (keeps_attempt hn hcall).before fun ending q => .read ?_
    have hconclude (result : Except CheckError Verdict) (r : Pool) :
        Meets (conclude resource checker result >>= fun _ => pure result) r fun result ts =>
          ts = (Entry.verdict resource checker result).trouble?.toList :=
      (meets_conclude resource checker result).bind fun _ _ ts hts =>
        .pure ((List.append_nil ts).trans hts)
    split
    · exact Keeps.before (.change fun _ => rfl) fun _ r => hconclude _ r
    · exact hconclude _ q

/-- A creation writes its failure down if it fails. -/
theorem meets_createResource (state : SlotState) (origin : Origin) :
    Meets (createResource nested state origin) p fun result ts =>
      ts = creationTroubles origin result := by
  refine (keeps_produce hn origin).before fun result q => ?_
  cases result with
  | ok resource =>
    refine .read ?_
    split
    · exact (keeps_unreserve 1).before fun _ _ => (keeps_trace _ _ _).before fun _ _ =>
        (keeps_letGo hn _).before fun _ _ => .pure rfl
    · exact (keeps_commit _ _ _).before fun _ _ => .pure rfl
  | error error =>
    refine (keeps_unreserve 1).before fun _ _ => (keeps_bump rfl).before fun _ r => ?_
    have hemit : Meets (emit (.resourceCreationFailed origin error.text)) r fun _ ts =>
        ts = (Entry.event (.resourceCreationFailed origin error.text)).trouble?.toList :=
      .of_done rfl (.note r r.tally _) rfl
    exact hemit.bind fun _ _ ts hts => .pure ((List.append_nil ts).trans hts)

/-- Creations in a row end with the first failure. -/
theorem meets_fill (origin : Origin) (stops : Pool → Bool) (n : Nat) :
    Meets (fill nested origin stops n) p fun result ts => ts = creationTroubles origin result := by
  induction n generalizing p with
  | zero => exact .pure rfl
  | succ n ih =>
    refine .read ?_
    split
    · exact (keeps_unreserve _).before fun _ _ => .pure rfl
    · refine (meets_createResource hn .idle origin).bind fun result q ts hts => ?_
      subst hts
      rcases result with error | _ | created
      · refine (keeps_unreserve _).before fun _ _ => .pure (List.append_nil _)
      · exact (keeps_unreserve _).before fun _ _ => .pure rfl
      · refine ih.bind fun others r us hus => .pure ?_
        subst hus
        cases others <;> exact List.append_nil _

/-- The check of one slot meets a trouble exactly if it gives no verdict. -/
theorem meets_examine (id resource : Nat) :
    Meets (examine nested id resource) p fun result ts =>
      ts = (checkErrors [result]).map .check := by
  refine (meets_probe hn resource .care).bind fun result q ts hts => ?_
  subst hts
  rcases result with error | _ | reason
  · exact (keeps_unpark id resource error).before fun _ _ => .pure rfl
  · exact (keeps_reinstate id resource).before fun _ _ => .pure rfl
  · exact (keeps_takeOutBroken _ _ _ _).before fun _ _ => (smooth_note rfl).before fun _ _ =>
      (keeps_destroy hn _ _).before fun _ _ => .pure rfl

omit hn in
/-- Errors are listed one check after another. -/
theorem checkErrors_cons (result : Except CheckError Verdict)
    (others : List (Except CheckError Verdict)) :
    checkErrors (result :: others) = checkErrors [result] ++ checkErrors others := by
  rw [← List.singleton_append]
  exact List.filterMap_append

/-- The checks of a cycle meet the errors of those without a verdict, in their order. -/
theorem meets_examineAll (fatal : Bool) (ids : List Nat) :
    Meets (examineAll nested fatal ids) p fun results ts =>
      ts = (checkErrors results).map .check := by
  induction ids generalizing p with
  | nil => exact .pure rfl
  | cons id ids ih =>
    refine .read ?_
    split
    · exact .pure rfl
    · refine (keeps_park id).before fun parked q => ?_
      cases parked with
      | none => exact ih
      | some resource =>
        refine (meets_examine hn id resource).bind fun result r ts hts => ?_
        refine (keeps_letGo hn _).before fun _ s => ?_
        split
        · exact .pure ((List.append_nil ts).trans hts)
        · refine ih.bind fun others u us hus => .pure ?_
          rw [checkErrors_cons, List.map_append, ← hts, ← hus, List.append_nil]

/-- Replacing resources meets the failure that it reports, and no other trouble. -/
theorem meets_replenish :
    Meets (replenish nested) p fun result ts => ts = creationTroubles .healthCareJob result := by
  refine .read ?_
  split
  · exact Keeps.before (.change fun _ => rfl) fun _ _ => .pure rfl
  · exact .read ((keeps_reserve _ _).before fun _ _ => meets_fill hn _ _ _)

/-- What a cycle reports goes with its troubles. -/
theorem meets_runCare : Meets (runCare nested) p fun result ts =>
    ∃ errors failure, ts = cycleTroubles errors failure ∧ Reports errors failure result := by
  refine .read ?_
  split
  · exact .pure ⟨[], none, rfl, _, rfl⟩
  · refine (keeps_evict hn).before fun expired q => .read (.read ?_)
    refine (meets_examineAll hn _ _).bind fun results r ts hts => ?_
    dsimp only
    split
    · refine (meets_replenish hn).bind fun replacement s us hus => ?_
      refine (meets_concludeCare results expired replacement).weaken ?_
      rintro result _ ⟨rfl, hreports⟩
      refine ⟨_, _, ?_, hreports⟩
      rw [hts, hus, creationTroubles_healthCareJob, List.append_nil]
      rfl
    · refine (meets_concludeCare results expired (.ok 0)).weaken ?_
      rintro result _ ⟨rfl, hreports⟩
      exact ⟨_, _, hts ▸ rfl, hreports⟩

/-- A cycle without a panic reports its checks or its replacement. -/
theorem meets_careCycle : Meets (careCycle nested) p fun result ts =>
    (∃ message, result = .error (.panicked message)) ∨
      ∃ errors failure, ts = cycleTroubles errors failure ∧ Reports errors failure result := by
  refine (Meets.attempt hn (meets_runCare hn)).bind fun ending q ts hts => ?_
  cases ending with
  | ok result => exact .pure (.inr ((List.append_nil ts).symm ▸ hts))
  | error panic => exact .pure (.inl ⟨_, rfl⟩)

end Nested

/-- An operation meets no trouble at the depth at which it is asked for. -/
theorem smooth_run (budget : Nat) (op : Op) : Answers Pool.Spared (run budget op) := by
  cases budget with
  | zero => exact fun _ => Spec.exceed
  | succ budget =>
    have hbody := (clears_perform (answers_run budget) budget op).mono Pool.Accounts.toComesBack
    have hnested (op : Op) := (answers_run budget op).mono Pool.Accounts.toComesBack
    exact smooth_answering hnested hbody op

end PoolM

namespace Pool

open PoolM (careCycle cycleTroubles run)

/-- The checks among the troubles of a cycle. -/
theorem filterMap_error?_cycleTroubles (errors : List CheckError) (failure : Option CreationError) :
    (cycleTroubles errors failure).filterMap (·.error?) = errors := by
  rw [cycleTroubles, List.filterMap_append, List.filterMap_map, List.filterMap_map]
  simp [Trouble.error?, Function.comp_def]

/-- The replacement among the troubles of a cycle. -/
theorem filterMap_failure?_cycleTroubles (errors : List CheckError)
    (failure : Option CreationError) :
    (cycleTroubles errors failure).filterMap (·.failure?) = failure.toList.map (·.text) := by
  rw [cycleTroubles, List.filterMap_append, List.filterMap_map, List.filterMap_map]
  simp [Trouble.failure?, Function.comp_def]

/-- Whatever user code does, a health-care cycle without a panic reports the first of its checks
that gave no verdict and their number, unless it has met a replacement that failed. It reports that
one alone. -/
theorem care_reports_troubles {p q : Pool} {budget : Nat} {result : Except CareFailure CareReport}
    (h : careCycle (run budget) p = (.done result, q))
    (hpanic : ∀ message, result ≠ .error (.panicked message)) :
    (q.failedReplacementsSince p = [] → match q.checkErrorsSince p with
      | [] => ∃ report, result = .ok report
      | first :: others => result = .error (.checks first (others.length + 1))) ∧
    (q.failedReplacementsSince p ≠ [] → ∃ error, result = .error (.replacement error) ∧
      q.failedReplacementsSince p = [error.text]) := by
  have hmeets := PoolM.meets_careCycle (p := p) (PoolM.smooth_run budget)
  obtain ⟨ts, hadds, ⟨message, hmessage⟩ | ⟨errors, failure, rfl, hreports⟩⟩ :=
    PoolM.Leaves.of_done hmeets h
  · exact absurd hmessage (hpanic message)
  · rw [failedReplacementsSince, checkErrorsSince, hadds.troubles, filterMap_error?_cycleTroubles,
      filterMap_failure?_cycleTroubles]
    cases failure with
    | some error => exact ⟨nofun, fun _ => ⟨error, hreports, rfl⟩⟩
    | none =>
      refine ⟨fun _ => ?_, fun hfailed => absurd rfl hfailed⟩
      cases errors with
      | nil => exact hreports
      | cons first others => exact hreports

/-- Of two resources the check of the first fails and the second is not healthy. The creation of its
replacement fails too, and the cycle says nothing of the check. -/
theorem care_reports_replacement_only :
    let failing : CheckRoutine := ⟨[], ⟨[], .answer (.error (.failed "probe broke" []))⟩⟩
    let unhealthy : CheckRoutine := ⟨[], ⟨[], .answer (.ok (.unhealthy "worn"))⟩⟩
    let down : CreationError := { message := "supplier down" }
    let user : UserCode :=
      { UserCode.plain with
        factory := ⟨[⟨[], .success⟩, ⟨[], .success⟩, ⟨[], .failure down⟩], ⟨[], .success⟩⟩
        checkStyle := some .direct
        checks := [(0, failing), (1, unhealthy)] }
    let p := (PoolM.run 2 .keeper (new "core" { desiredCount := 2, maxCount := 4 } user)).2
    let q := (careCycle (run 1) p).2
    q.checkErrorsSince p = [.failed "probe broke" []] ∧ ∃ error,
      (careCycle (run 1) p).1 = .done (.error (.replacement error)) ∧
        q.failedReplacementsSince p = [error.text] := by
  intro failing unhealthy down user p q
  have hresult : (careCycle (run 1) p).1 = .done (.error (.replacement down)) := by decide +kernel
  have hcycle : careCycle (run 1) p = (.done (.error (.replacement down)), q) :=
    PoolM.eq_done_of_fst hresult
  obtain ⟨error, herror, hfailed⟩ := (care_reports_troubles hcycle nofun).2 (by decide +kernel)
  exact ⟨by decide +kernel, error, hresult.trans (congrArg Outcome.done herror), hfailed⟩

end Pool

end LeasePool
