import LeasePool.Proofs.Restock
import LeasePool.Proofs.Slots
import LeasePool.Proofs.Capacity

/-!
# A cycle of the health-care job

One cycle of the health-care job removes the expired idle slots, checks the other idle slots one
after another, and replaces what it has removed. What it does with each slot depends on the verdict
of its check alone.
-/

namespace LeasePool

/-- A health check of an idle slot: the slot before it, its result and its time. -/
structure Checkup where
  slot : Slot Nat
  result : Except CheckError Verdict
  time : Instant

namespace Checkup

/-- What a check leaves of its slot: one found healthy keeps the time of the check, one found
unhealthy leaves the table, and a check without a verdict changes nothing. -/
def kept? (c : Checkup) : Option (Slot Nat) :=
  match c.result with
  | .ok .healthy => some { c.slot with lastCheck := some c.time }
  | .ok (.unhealthy _) => none
  | .error _ => some c.slot

/-- The deeds of a check and of what follows from it. -/
def deeds (style : Option CheckStyle) (c : Checkup) : List Entry :=
  checkDeeds style c.slot.resource .care c.result ++
    match c.result with
    | .ok (.unhealthy reason) => [.event (.healthCheckFailed c.slot.id reason),
        .event (.resourceDestroyed c.slot.id .unhealthy)]
    | _ => []

end Checkup

/-- The results of checks that are made: all of them, or those up to the first one without a verdict
if that is fatal. -/
def untilError (fatal : Bool) :
    List (Except CheckError Verdict) → List (Except CheckError Verdict)
  | [] => []
  | result :: others =>
    if fatal && PoolM.lacksVerdict result then [result] else result :: untilError fatal others

/-- All checks are made if none of them is fatal. -/
theorem untilError_false (results : List (Except CheckError Verdict)) :
    untilError false results = results := by
  induction results with
  | nil => rfl
  | cons result others ih => rw [untilError, ih, Bool.false_and, if_neg Bool.false_ne_true]

/-- Each resource is checked once. -/
theorem UserCode.length_checkedAll (limit : Duration) (resources : List Nat) (u : UserCode) :
    (u.checkedAll limit resources).length = resources.length := by
  induction resources generalizing u with
  | nil => rfl
  | cons resource others ih => rw [checkedAll, List.length_cons, List.length_cons, ih]

/-- Parking and unparking leaves an idle slot as it was. -/
theorem unparked_pending {s : Slot Nat} (h : s.state = .idle) :
    PoolM.unparked { s with state := .pending } = s := by
  rw [PoolM.unparked, if_pos rfl, ← h]

/-- An idle slot that is parked and passes its check has got the time of the check, and nothing else
is new. -/
theorem passed_pending {s : Slot Nat} (h : s.state = .idle) (time : Instant) :
    PoolM.passed time { s with state := .pending } = { s with lastCheck := some time } := by
  rw [PoolM.passed, if_pos rfl, ← h]

/-- Whether a slot has expired at the next reading of the clock. -/
def Bench.expires (b : Bench) (s : Slot Nat) : Bool :=
  b.config.eviction.expired s.createdAt s.lastUsed b.clock.read.now

/-- What checks of the slots `todo` in a row come to, where the slots `others` stay as they are. -/
structure Bench.Examines (b : Bench) (base : Table Nat) (fatal : Bool)
    (todo others : List (Slot Nat)) (checks : List Checkup) (table : Table Nat) (user : UserCode)
    (clock : Clock) : Prop where
  slots : checks.map (·.slot) = todo.take checks.length
  results : checks.map (·.result) = untilError fatal
    (b.user.checkedAll b.config.checkTimeout (todo.map (·.resource)))
  times : ∀ c ∈ checks, b.clock.now ≤ c.time ∧ c.time ≤ clock.now
  later : b.clock.now ≤ clock.now
  isWith : base.IsWith (checks.filterMap (·.kept?) ++ (todo.drop checks.length ++ others)) table
  factory : user.factory = b.user.factory

/-- What checks leave is told one check after another. -/
theorem Checkup.filterMap_kept?_cons (c : Checkup) (checks : List Checkup) :
    (c :: checks).filterMap (·.kept?) = c.kept?.toList ++ checks.filterMap (·.kept?) := by
  rw [List.filterMap_cons]
  cases c.kept? <;> rfl

namespace Bench.Examines

variable {b : Bench} {base table table' : Table Nat} {fatal : Bool} {s : Slot Nat}
  {todo others : List (Slot Nat)} {checks : List Checkup} {user : UserCode} {clock clock' : Clock}
  {result : Except CheckError Verdict} {time : Instant}

/-- Nothing is left to check. -/
theorem nil (hw : base.IsWith others b.table) (fatal : Bool) :
    b.Examines base fatal [] others [] b.table b.user b.clock :=
  ⟨rfl, rfl, fun _ hc => absurd hc List.not_mem_nil, Nat.le_refl _, hw, rfl⟩

/-- A check without a verdict is the last if that is fatal. -/
theorem cut (hr : result = b.user.checked b.config.checkTimeout s.resource)
    (hcut : (fatal && PoolM.lacksVerdict result) = true) (hsince : b.clock.now ≤ time)
    (htill : time ≤ clock.now)
    (hw : base.IsWith ((Checkup.mk s result time).kept?.toList ++ (todo ++ others)) table) :
    b.Examines base fatal (s :: todo) others [⟨s, result, time⟩] table
      (b.user.afterCheck s.resource) clock where
  slots := rfl
  results := by
    simp only [List.map_cons, List.map_nil, UserCode.checkedAll, untilError, ← hr, hcut, if_true]
  times := List.forall_mem_singleton.2 ⟨hsince, htill⟩
  later := Nat.le_trans hsince htill
  isWith := by
    rw [Checkup.filterMap_kept?_cons, List.filterMap_nil, List.append_nil]
    exact hw
  factory := b.user.factory_afterCheck s.resource

/-- One check before others. -/
theorem cons
    (h : { b with table, user := b.user.afterCheck s.resource, clock }.Examines base fatal todo
      ((Checkup.mk s result time).kept?.toList ++ others) checks table' user clock')
    (hr : result = b.user.checked b.config.checkTimeout s.resource)
    (hcut : (fatal && PoolM.lacksVerdict result) = false) (hsince : b.clock.now ≤ time)
    (htill : time ≤ clock.now) :
    b.Examines base fatal (s :: todo) others (⟨s, result, time⟩ :: checks) table' user clock' where
  slots := by
    rw [List.map_cons, h.slots]
    rfl
  results := by
    simp only [List.map_cons, UserCode.checkedAll, untilError, ← hr, hcut, h.results,
      Bool.false_eq_true, if_false]
  times := by
    have hle := Nat.le_trans hsince htill
    refine List.forall_mem_cons.2 ⟨⟨hsince, Nat.le_trans htill h.later⟩, fun c hc => ?_⟩
    exact ⟨Nat.le_trans hle (h.times c hc).1, (h.times c hc).2⟩
  later := Nat.le_trans (Nat.le_trans hsince htill) h.later
  isWith := by
    rw [Checkup.filterMap_kept?_cons]
    refine h.isWith.perm (List.perm_iff_count.2 fun a => ?_)
    simp only [List.count_append, List.length_cons, List.drop_succ_cons]
    omega
  factory := h.factory.trans (b.user.factory_afterCheck s.resource)

end Bench.Examines

namespace PoolM

variable {first p : Pool} {deeds : List Entry} {b : Bench} {nested : Op → PoolM Reply}
  {base : Table Nat} {s : Slot Nat} {others : List (Slot Nat)}

/-- An idle slot is parked for its check. -/
theorem doing_park (h : first.Does deeds b p) (hw : base.IsWith (s :: others) b.table)
    (hs : s.state = .idle) :
    Doing first (park s.id) p fun resource q => resource = some s.resource ∧
      first.Does deeds (b.withTable (b.table.setState s.id .pending)) q := by
  have htable : p.table = b.table := congrArg (·.table) h.bench
  have hclaim : p.table.claimForCheck s.id =
      some ({ s with state := .pending }, b.table.setState s.id .pending) := by
    rw [htable, Table.claimForCheck, hw.find?]
    exact if_pos hs
  have hpark : park s.id p = (.done (some s.resource),
      { p with table := b.table.setState s.id .pending }.hold
        (.slot .examination s.id s.resource)) := by
    rw [park, update_apply, hclaim]
  refine .of_done hpark ⟨rfl, ?_⟩
  exact h.update (·.withTable (b.table.setState s.id .pending)) rfl rfl rfl rfl h.quiet

/-- A parked slot that was found healthy is put back. -/
theorem doing_reinstate (h : first.Does deeds b p) (id resource : Nat) :
    Doing first (reinstate id resource) p fun _ q => first.Does deeds
      { b with
        table := b.table.modify id (passed b.clock.read.now)
        clock := b.clock.read } q := by
  refine (doing_now h).bind ?_
  rintro _ q ⟨rfl, hq⟩
  have hback : first.Does deeds
      { b with
        table := b.table.modify id (passed b.clock.read.now)
        clock := b.clock.read }
      ((q.onTable (·.modify id (passed b.clock.read.now))).disown .examination id resource) := by
    exact hq.update (fun c => c.withTable (c.table.modify id (passed b.clock.read.now)))
      rfl rfl rfl rfl hq.quiet
  exact .of_done rfl (hback.remark rfl)

/-- A parked slot whose check gave no verdict is put back. -/
theorem doing_unpark (h : first.Does deeds b p) (id resource : Nat) (error : CheckError) :
    Doing first (unpark id resource error) p fun _ q => first.Does deeds
      (b.withTable (b.table.modify id unparked)) q := by
  have hback : first.Does deeds (b.withTable (b.table.modify id unparked))
      ((p.onTable (·.modify id unparked)).disown .examination id resource) := by
    exact h.update (fun c => c.withTable (c.table.modify id unparked)) rfl rfl rfl rfl h.quiet
  exact .change (doing_trace hback _ _ _)

/-- The check of one parked slot. -/
theorem doing_examine {t : Table Nat}
    (h : first.Does deeds (b.withTable (t.setState s.id .pending)) p)
    (hw : base.IsWith (s :: others) t) (hs : s.state = .idle) (nested : Op → PoolM Reply) :
    Doing first (examine nested s.id s.resource) p fun result q =>
      result = b.user.checked b.config.checkTimeout s.resource ∧
        ∃ (time : Instant) (table : Table Nat) (clock : Clock),
          b.clock.now ≤ time ∧ time ≤ clock.now ∧
          base.IsWith ((Checkup.mk s result time).kept?.toList ++ others) table ∧
          first.Does (deeds ++ (Checkup.mk s result time).deeds b.user.checkStyle)
            { b with table, user := b.user.afterCheck s.resource, clock } q := by
  have hparked : base.IsWith ({ s with state := .pending } :: others)
      (t.setState s.id .pending) := hw.setState nofun
  refine (doing_probe h nested s.resource .care).bind ?_
  rintro result q ⟨hresult, clock, hle, hq⟩
  rcases result with error | _ | reason
  · have hback := hparked.modify id_unparked state_unparked_ne_invalid
    rw [unparked_pending hs] at hback
    refine (doing_unpark hq s.id s.resource error).bind fun _ r hr => .pure ⟨hresult, ?_⟩
    refine ⟨b.clock.now, _, clock, Nat.le_refl _, hle, hback, ?_⟩
    rw [Checkup.deeds, List.append_nil]
    exact hr
  · have hback := hparked.modify (id_passed clock.read.now)
      (state_passed_ne_invalid clock.read.now)
    rw [passed_pending hs] at hback
    refine (doing_reinstate hq s.id s.resource).bind fun _ r hr => .pure ⟨hresult, ?_⟩
    refine ⟨clock.read.now, _, clock.read, Nat.le_trans hle clock.now_le_read, Nat.le_refl _, hback,
      ?_⟩
    rw [Checkup.deeds, List.append_nil]
    exact hr
  · refine (doing_takeOutBroken hq .examination s.id s.resource .unhealthy).bind ?_
    intro removed r ⟨hremoved, hr⟩
    have hbroken : ((t.setState s.id .pending).invalidate s.id).1.toList =
        [{ s with state := .invalid }] := by
      rw [Table.invalidate_setState, hw.invalidate_fst]
      rfl
    obtain rfl := hremoved.trans hbroken
    have htable := hw.invalidate
    rw [← Table.invalidate_setState s.id .pending] at htable
    refine (doing_emit hr _).bind fun _ u hu => ?_
    refine (doing_destroy hu nested .unhealthy _).bind fun _ v hv => .pure ⟨hresult, ?_⟩
    refine ⟨b.clock.now, _, clock, Nat.le_refl _, hle, htable, ?_⟩
    rw [List.append_assoc, List.append_assoc] at hv
    exact hv

/-- Checks in a row, of slots that are idle. -/
theorem doing_examineAll {todo : List (Slot Nat)} (h : first.Does deeds b p)
    (hgo : b.careStops = false) (hw : base.IsWith (todo ++ others) b.table)
    (hidle : ∀ s ∈ todo, s.state = .idle) (nested : Op → PoolM Reply) (fatal : Bool) :
    Doing first (examineAll nested fatal (todo.map (·.id))) p fun results q =>
      ∃ (checks : List Checkup) (table : Table Nat) (user : UserCode) (clock : Clock),
        results = checks.map (·.result) ∧
        b.Examines base fatal todo others checks table user clock ∧
        first.Does (deeds ++ checks.flatMap (·.deeds b.user.checkStyle))
          { b with table, user, clock } q := by
  induction todo generalizing p deeds b others with
  | nil =>
    refine .pure ⟨[], b.table, b.user, b.clock, rfl, .nil hw fatal, ?_⟩
    rwa [List.flatMap_nil, List.append_nil]
  | cons s todo ih =>
    have hw : base.IsWith (s :: (todo ++ others)) b.table := hw
    have hs := hidle s List.mem_cons_self
    have hstops : p.careStops = false := (congrArg (·.careStops) h.bench).trans hgo
    refine .read ?_
    rw [hstops]
    refine (doing_park h hw hs).bind ?_
    rintro _ q ⟨rfl, hq⟩
    refine (doing_examine hq hw hs nested).bind ?_
    rintro result r ⟨hresult, time, table, clock, hsince, htill, hkept, hr⟩
    refine (doing_letGo hr nested _).bind fun _ u hu => ?_
    cases hcut : fatal && lacksVerdict result with
    | true =>
      refine .pure ⟨[⟨s, result, time⟩], table, b.user.afterCheck s.resource, clock, rfl, ?_, ?_⟩
      · exact .cut hresult hcut hsince htill hkept
      · rw [List.flatMap_singleton]
        exact hu
    | false =>
      have hleft : base.IsWith (todo ++ ((Checkup.mk s result time).kept?.toList ++ others))
          table := by
        refine hkept.perm (List.perm_iff_count.2 fun a => ?_)
        simp only [List.count_append]
        omega
      refine (ih hu hgo hleft fun s' hs' => hidle s' (List.mem_cons_of_mem _ hs')).bind ?_
      rintro _ v ⟨checks, table', user, clock', rfl, hexamines, hv⟩
      refine .pure ⟨⟨s, result, time⟩ :: checks, table', user, clock', rfl, ?_, ?_⟩
      · exact hexamines.cons hresult hcut hsince htill
      · rw [List.flatMap_cons, ← List.append_assoc]
        rw [show UserCode.checkStyle _ = _ from b.user.checkStyle_afterCheck s.resource] at hv
        exact hv

/-- The expired idle slots are destroyed. -/
theorem doing_evict (h : first.Does deeds b p) (nested : Op → PoolM Reply) :
    Doing first (evict nested) p fun expired q => ∃ clock : Clock, b.clock.now ≤ clock.now ∧
      expired = (b.table.removeIdleWhere b.expires).1.length ∧
      first.Does
        (deeds ++ (b.table.removeIdleWhere b.expires).1.map
          fun s => .event (.resourceDestroyed s.id .expired))
        { b with table := (b.table.removeIdleWhere b.expires).2, clock } q := by
  have hpolicy : p.config.eviction = b.config.eviction := congrArg (·.config.eviction) h.bench
  refine .read ?_
  rw [hpolicy]
  cases henabled : b.config.eviction.isEnabled with
  | true =>
    refine (doing_now h).bind ?_
    rintro _ q ⟨rfl, hq⟩
    have hout : Doing first (takeOutExpired b.expires) q fun slots r =>
        slots = (b.table.removeIdleWhere b.expires).1 ∧ first.Does deeds
          { b with table := (b.table.removeIdleWhere b.expires).2, clock := b.clock.read } r := by
      refine (doing_takeOut hq .expired _).bind ?_
      rintro _ r ⟨rfl, hr⟩
      refine (doing_addTo hr (c := .evictions) nofun nofun _).bind fun _ u hu => .pure ⟨rfl, hu⟩
    refine hout.bind ?_
    rintro _ r ⟨rfl, hr⟩
    refine (doing_destroy hr nested .expired _).bind fun _ u hu => .pure ?_
    exact ⟨b.clock.read, b.clock.now_le_read, rfl, hu⟩
  | false =>
    have hnone : ∀ s, b.expires s = false := by
      intro s
      rw [Bench.expires]
      cases hp : b.config.eviction <;> simp_all [Eviction.isEnabled, Eviction.expired]
    rw [Table.removeIdleWhere_eq_self hnone]
    refine .pure ⟨b.clock, Nat.le_refl _, rfl, ?_⟩
    rw [List.map_nil, List.append_nil]
    exact h

/-- What was removed is replaced as far as the maximum and the factory allow, or the count keeper is
told to do so. -/
theorem doing_replenish_yields (h : first.Does deeds b p) (ht : b.table.Suits b.config.maxCount)
    (hgo : b.careStops = false) (nested : Op → PoolM Reply) :
    Doing first (replenish nested) p fun result q =>
      ∃ (failure : Option CreationError) (fresh : List (Slot Nat)) (clock : Clock),
        b.user.factory.Yields
          (if b.delegates then 0
            else min (b.desired - b.table.live) (b.config.maxCount - b.table.live))
          fresh.length failure ∧
        Fresh .idle b.table.nextId b.made b.clock.now clock.now fresh ∧
        b.clock.now ≤ clock.now ∧
        result = failure.elim (.ok fresh.length) .error ∧
        first.Does (deeds ++ creationDeeds .healthCareJob b.table.nextId fresh.length failure)
          { b.restocked 0 failure fresh clock with
            keeperSignal := if b.delegates then b.keeperSignal.nudge else b.keeperSignal } q := by
  have hdelegates : p.delegates = b.delegates := congrArg (·.delegates) h.bench
  refine .read ?_
  rw [hdelegates]
  cases b.delegates with
  | true =>
    refine .change (.pure ⟨none, [], b.clock, ⟨nofun, .inl ⟨rfl, rfl⟩⟩, .nil .., Nat.le_refl _, rfl,
      ?_⟩)
    rw [Bench.restocked_zero, creationDeeds]
    simp only [List.length_nil, List.range'_zero, List.flatMap_nil, Option.toList_none,
      List.append_nil, if_true]
    exact h.update (fun c => { c with keeperSignal := c.keeperSignal.nudge }) rfl rfl rfl rfl
      h.quiet
  | false =>
    have hopen : b.closed = false := (Bool.or_eq_false_iff.1 hgo).2
    refine .read ((doing_reserve h ht .healthCareJob _).bind ?_)
    rintro granted q ⟨hgranted, hq⟩
    refine (doing_fill hq (by decide : Origin.healthCareJob ≠ .acquire) ?_ hopen
      (Nat.le_add_left ..) nested).weaken ?_
    · intro r hclosed _ hcare
      rw [Pool.careStops, hclosed, hcare]
      exact hgo
    rintro _ r ⟨failure, fresh, clock, hyields, hfresh, hle, rfl, hr⟩
    rw [Bench.restocked_reserved] at hr
    have hdesired : p.desired = b.desired := congrArg (·.desired) h.bench
    have hlive : p.table.live = b.table.live := congrArg (·.table.live) h.bench
    rw [hgranted, hdesired, hlive] at hyields
    exact ⟨failure, fresh, clock, hyields, hfresh, hle, rfl, hr⟩

/-- Replacements are due only if something was removed. -/
theorem doing_replenish_due (h : first.Does deeds b p) (ht : b.table.Suits b.config.maxCount)
    (hgo : b.careStops = false) (nested : Op → PoolM Reply) (due : Prop) [Decidable due] :
    Doing first (if due then replenish nested else pure (.ok 0)) p fun result q =>
      ∃ (failure : Option CreationError) (fresh : List (Slot Nat)) (clock : Clock),
        b.user.factory.Yields
          (if due ∧ b.delegates = false then
            min (b.desired - b.table.live) (b.config.maxCount - b.table.live) else 0)
          fresh.length failure ∧
        Fresh .idle b.table.nextId b.made b.clock.now clock.now fresh ∧
        b.clock.now ≤ clock.now ∧
        result = failure.elim (.ok fresh.length) .error ∧
        first.Does (deeds ++ creationDeeds .healthCareJob b.table.nextId fresh.length failure)
          { b.restocked 0 failure fresh clock with
            keeperSignal :=
              if due ∧ b.delegates = true then b.keeperSignal.nudge else b.keeperSignal } q := by
  split
  · next hdue =>
    refine (doing_replenish_yields h ht hgo nested).weaken ?_
    rintro _ q ⟨failure, fresh, clock, hyields, hfresh, hle, rfl, hq⟩
    refine ⟨failure, fresh, clock, ?_, hfresh, hle, rfl, ?_⟩
    · cases hdelegates : b.delegates <;> simpa [hdue, hdelegates] using hyields
    · simpa only [hdue, true_and] using hq
  · next hdue =>
    refine .pure ⟨none, [], b.clock, ⟨nofun, .inl ⟨rfl, ?_⟩⟩, .nil .., Nat.le_refl _, rfl, ?_⟩
    · simp [hdue]
    · rw [Bench.restocked_zero]
      simpa [creationDeeds, hdue] using h

/-- A factory that gives resources replaces all that is missing. -/
theorem doing_replenish_of (h : first.Does deeds b p) (ht : b.table.Suits b.config.maxCount)
    (hgo : b.careStops = false) (hf : ∀ n, (b.user.factory.nth n).outcome = .success)
    (nested : Op → PoolM Reply) (due : Prop) [Decidable due] :
    Doing first (if due then replenish nested else pure (.ok 0)) p fun result q =>
      ∃ (fresh : List (Slot Nat)) (clock : Clock),
        result = .ok fresh.length ∧
        fresh.length = (if due ∧ b.delegates = false then
          min b.desired b.config.maxCount - b.table.live else 0) ∧
        Fresh .idle b.table.nextId b.made b.clock.now clock.now fresh ∧
        b.clock.now ≤ clock.now ∧
        first.Does (deeds ++ creationDeeds .healthCareJob b.table.nextId fresh.length none)
          { b.restocked 0 none fresh clock with
            keeperSignal :=
              if due ∧ b.delegates = true then b.keeperSignal.nudge else b.keeperSignal } q := by
  refine (doing_replenish_due h ht hgo nested due).weaken ?_
  rintro _ q ⟨failure, fresh, clock, hyields, hfresh, hle, rfl, hq⟩
  obtain ⟨rfl, hlength⟩ := hyields.of_succeeds hf
  refine ⟨fresh, clock, rfl, ?_, hfresh, hle, hq⟩
  rw [hlength]
  split
  · omega
  · rfl

/-- A cycle whose replacement went well reports its checks. -/
theorem doing_concludeCare (h : first.Does deeds b p) (results : List (Except CheckError Verdict))
    (expired replaced : Nat) :
    Doing first (concludeCare results expired (.ok replaced)) p fun result q =>
      result = (match checkErrors results with
        | [] => .ok
          { checked := results.length, unhealthy := countUnhealthy results, expired, replaced }
        | error :: others => .error (.checks error (others.length + 1))) ∧
      first.Does deeds b q := by
  have htrace (report : CareReport) :
      Doing first (traceCare report) p fun _ q => first.Does deeds b q := by
    unfold traceCare
    split
    · exact doing_trace h _ _ _
    · exact .pure h
  refine (htrace _).bind fun _ q hq => ?_
  cases checkErrors results with
  | nil => exact .pure ⟨rfl, hq⟩
  | cons error others => exact .pure ⟨rfl, hq⟩

end PoolM

namespace Pool

open PoolM (checkErrors countUnhealthy careCycle runCare)

variable {p q : Pool} {nested : Op → PoolM Reply}

/-- How many slots a cycle has removed. -/
def removals (expired : List (Slot Nat)) (checks : List Checkup) : Nat :=
  countUnhealthy (checks.map (·.result)) + expired.length

/-- What a cycle of the health-care job does: first the `expired` slots leave the table, then the
idle ones of the remaining table are checked in its order, and `fresh` ones replace what was
removed. -/
structure Tends (p : Pool) (expired : List (Slot Nat)) (remaining : Table Nat)
    (checks : List Checkup) (fresh : List (Slot Nat)) (result : Except CareFailure CareReport)
    (q : Pool) : Prop where
  evicted : p.table.removeIdleWhere p.bench.expires = (expired, remaining)
  allExpired : expired.Perm (p.table.slots.filter fun s => s.state == .idle && p.bench.expires s)
  idle : (remaining.slots.filter (·.state == .idle)).Perm
    (p.table.slots.filter fun s => s.state == .idle && !p.bench.expires s)
  checked : checks.map (·.slot) =
    (remaining.slots.filter (·.state == .idle)).take checks.length
  all : p.config.careFailureFatal = false →
    checks.map (·.slot) = remaining.slots.filter (·.state == .idle)
  results : checks.map (·.result) = untilError p.config.careFailureFatal
    (p.user.checkedAll p.config.checkTimeout
      ((remaining.slots.filter (·.state == .idle)).map (·.resource)))
  times : ∀ c ∈ checks, p.clock.now ≤ c.time ∧ c.time ≤ q.clock.now
  slots : q.table.slots.Perm (checks.filterMap (·.kept?) ++
    (remaining.slots.filter (·.state == .idle)).drop checks.length ++
    p.table.slots.filter (·.state != .idle) ++ fresh)
  creating : q.table.creating = p.table.creating
  isFresh : Fresh .idle p.table.nextId p.made p.clock.now q.clock.now fresh
  replaced : fresh.length =
    if 0 < removals expired checks ∧ p.delegates = false then
      min p.desired p.config.maxCount - (p.table.live - removals expired checks)
    else 0
  nudged : q.keeperSignal =
    if 0 < removals expired checks ∧ p.delegates = true then p.keeperSignal.nudge
    else p.keeperSignal
  result : result = match checkErrors (checks.map (·.result)) with
    | [] => .ok
      { checked := checks.length
        unhealthy := countUnhealthy (checks.map (·.result))
        expired := expired.length
        replaced := fresh.length }
    | error :: others => .error (.checks error (others.length + 1))
  deeds : q.deedsSince p =
    expired.map (fun s => .event (.resourceDestroyed s.id .expired)) ++
    checks.flatMap (·.deeds p.user.checkStyle) ++
    creationDeeds .healthCareJob p.table.nextId fresh.length none

/-- A check takes its slot out of the table exactly if it found it unhealthy. -/
theorem length_kept (checks : List Checkup) :
    (checks.filterMap (·.kept?)).length + countUnhealthy (checks.map (·.result)) =
      checks.length := by
  induction checks with
  | nil => rfl
  | cons c checks ih =>
    obtain ⟨s, result, time⟩ := c
    rw [List.map_cons, countUnhealthy, List.countP_cons, ← countUnhealthy]
    rcases result with error | _ | reason
    · have hkept : (Checkup.mk s (.error error) time).kept? = some s := rfl
      rw [List.filterMap_cons_some hkept, List.length_cons, List.length_cons, ← ih]
      exact Nat.add_right_comm ..
    · have hkept : (Checkup.mk s (.ok .healthy) time).kept? =
        some { s with lastCheck := some time } := rfl
      rw [List.filterMap_cons_some hkept, List.length_cons, List.length_cons, ← ih]
      exact Nat.add_right_comm ..
    · have hkept : (Checkup.mk s (.ok (.unhealthy reason)) time).kept? = none := rfl
      rw [List.filterMap_cons_none hkept, List.length_cons, ← ih]
      exact (Nat.add_assoc ..).symm

/-- The idle slots of a table and the others make up all its slots. -/
theorem slots_perm_idle_busy (t : Table Nat) :
    t.slots.Perm (t.slots.filter (·.state == .idle) ++ t.slots.filter (·.state != .idle)) :=
  (List.filter_append_perm (fun s : Slot Nat => s.state == .idle) t.slots).symm

section Parts

variable {expired : List (Slot Nat)} {remaining table : Table Nat} {checks : List Checkup}
  {fresh : List (Slot Nat)} {user : UserCode} {evicted examined replenished : Clock}

/-- The slots that a cycle removes and those that it leaves are all there were. -/
theorem length_of_examines (he : p.table.Prunes remaining expired) {b : Bench} {fatal : Bool}
    (hc : b.Examines remaining fatal (remaining.slots.filter (·.state == .idle))
      (remaining.slots.filter (·.state != .idle)) checks table user examined) :
    p.table.slots.length = removals expired checks + table.slots.length := by
  have hexpired := he.slots.length_eq
  have hremaining := (slots_perm_idle_busy remaining).length_eq
  have htable := hc.isWith.slots.length_eq
  have hkept := length_kept checks
  have hchecked := congrArg List.length hc.slots
  rw [removals]
  simp only [List.length_append, List.length_map, List.length_take, List.length_drop] at *
  omega

/-- What a cycle leaves before it replaces anything is no more than there was. -/
theorem suits_of_examines {max : Nat} (hs : p.table.Suits max)
    (he : p.table.Prunes remaining expired) {b : Bench} {fatal : Bool}
    (hc : b.Examines remaining fatal (remaining.slots.filter (·.state == .idle))
      (remaining.slots.filter (·.state != .idle)) checks table user examined) :
    table.Suits max :=
  hs.shrink hc.isWith.sound (by rw [length_of_examines he hc]; omega)
    (hc.isWith.creating.trans he.creating)

/-- What is live when a cycle replaces what it has removed. -/
theorem live_of_examines {max : Nat} (hs : p.table.Suits max)
    (he : p.table.Prunes remaining expired) {b : Bench} {fatal : Bool}
    (hc : b.Examines remaining fatal (remaining.slots.filter (·.state == .idle))
      (remaining.slots.filter (·.state != .idle)) checks table user examined) :
    table.live = p.table.live - removals expired checks := by
  have hlength := length_of_examines he hc
  rw [(suits_of_examines hs he hc).live_eq, hs.live_eq, hc.isWith.creating, he.creating]
  omega

/-- A cycle that has removed the expired slots, checked the idle ones and replaced what was missing
then. -/
theorem tends_of_parts {result : Except CareFailure CareReport}
    (hs : p.table.Suits p.config.maxCount)
    (he : p.table.removeIdleWhere p.bench.expires = (expired, remaining))
    (hevicted : p.clock.now ≤ evicted.now)
    (hc : Bench.Examines { p.bench with table := remaining, clock := evicted } remaining
      p.config.careFailureFatal (remaining.slots.filter (·.state == .idle))
      (remaining.slots.filter (·.state != .idle)) checks table user examined)
    (hreplaced : fresh.length = if 0 < removals expired checks ∧ p.delegates = false then
      min p.desired p.config.maxCount - table.live else 0)
    (hf : Fresh .idle table.nextId p.made examined.now replenished.now fresh)
    (hreplenished : examined.now ≤ replenished.now)
    (hr : result = match checkErrors (checks.map (·.result)) with
      | [] => .ok
        { checked := (checks.map (·.result)).length
          unhealthy := countUnhealthy (checks.map (·.result))
          expired := expired.length
          replaced := fresh.length }
      | error :: others => .error (.checks error (others.length + 1)))
    (h : p.Does
      ([] ++ expired.map (fun s => .event (.resourceDestroyed s.id .expired)) ++
        checks.flatMap (·.deeds p.user.checkStyle) ++
        creationDeeds .healthCareJob table.nextId fresh.length none)
      { Bench.restocked 0 none fresh replenished
          { p.bench with table, user, clock := examined } with
        keeperSignal := if 0 < removals expired checks ∧ p.delegates = true then
          p.keeperSignal.nudge else p.keeperSignal } q) :
    p.Tends expired remaining checks fresh result q := by
  have hprunes : p.table.Prunes remaining expired := by
    have := p.table.prunes_removeIdleWhere p.bench.expires
    rwa [he] at this
  have hallExpired := Table.removeIdleWhere_perm p.bench.expires p.table
  have hidle := Table.idle_removeIdleWhere p.bench.expires p.table
  have hbusy := Table.busy_removeIdleWhere p.bench.expires p.table
  rw [he] at hallExpired hidle hbusy
  have hclock : q.clock = replenished := congrArg (·.clock) h.bench
  have hslots : q.table.slots = table.slots ++ fresh := congrArg (·.table.slots) h.bench
  have hnextId : table.nextId = p.table.nextId := hc.isWith.nextId.trans hprunes.nextId
  exact {
    evicted := he
    allExpired := hallExpired
    idle := hidle
    checked := hc.slots
    all := fun hfatal => by
      have hlength := congrArg List.length hc.results
      rw [hfatal, untilError_false, UserCode.length_checkedAll, List.length_map,
        List.length_map] at hlength
      rw [hc.slots, hlength, List.take_length]
    results := hc.results
    times := fun c hmem => ⟨Nat.le_trans hevicted (hc.times c hmem).1,
      hclock ▸ Nat.le_trans (hc.times c hmem).2 hreplenished⟩
    slots := by
      rw [hslots]
      refine List.Perm.append_right fresh (hc.isWith.slots.trans ?_)
      rw [List.append_assoc]
      exact (hbusy.append_left _).append_left _
    creating := (congrArg (·.table.creating) h.bench).trans
      (hc.isWith.creating.trans hprunes.creating)
    isFresh := by
      rw [hclock, ← hnextId]
      exact hf.mono (Nat.le_trans hevicted hc.later)
    replaced := by rw [hreplaced, live_of_examines hs hprunes hc]
    nudged := congrArg (·.keeperSignal) h.bench
    result := by
      rw [List.length_map] at hr
      exact hr
    deeds := by
      rw [h.deeds, ← hnextId]
      rfl }

end Parts

/-- A cycle of an open pool tends it, unless a destructor panics. -/
theorem doing_runCare (hs : p.table.Suits p.config.maxCount) (hu : p.user.IsQuiet)
    (hgo : p.careStops = false) (hf : ∀ n, (p.user.factory.nth n).outcome = .success)
    (nested : Op → PoolM Reply) :
    PoolM.Doing p (runCare nested) p fun result q =>
      ∃ expired remaining checks fresh, p.Tends expired remaining checks fresh result q := by
  refine .read ?_
  rw [hgo]
  refine (PoolM.doing_evict (.start hu) nested).bind ?_
  rintro _ q ⟨evicted, hevicted, rfl, hq⟩
  let expired := (p.table.removeIdleWhere p.bench.expires).1
  let remaining := (p.table.removeIdleWhere p.bench.expires).2
  have hprunes : p.table.Prunes remaining expired := p.table.prunes_removeIdleWhere _
  have hsound : remaining.IsSound := hprunes.isSound hs.toIsSound
  have hidle : ∀ s ∈ remaining.slots.filter (·.state == .idle), s.state = .idle := fun s hmem => by
    simpa using (List.mem_filter.1 hmem).2
  have hconfig : q.config = p.config := congrArg (·.config) hq.bench
  have htable : q.table = remaining := congrArg (·.table) hq.bench
  refine .read (.read ?_)
  rw [hconfig, htable]
  refine (PoolM.doing_examineAll hq hgo (hsound.isWith.perm (slots_perm_idle_busy remaining)) hidle
    nested _).bind ?_
  rintro _ r ⟨checks, table, user, examined, rfl, hc, hr⟩
  change PoolM.Doing p (if 0 < removals expired checks
    then PoolM.replenish nested >>= PoolM.concludeCare _ _
    else pure (.ok 0) >>= PoolM.concludeCare _ _) r _
  rw [← apply_ite (· >>= PoolM.concludeCare _ _)]
  refine (PoolM.doing_replenish_of hr (suits_of_examines hs hprunes hc) hgo (hc.factory ▸ hf)
    nested _).bind ?_
  rintro _ u ⟨fresh, replenished, rfl, hreplaced, hfresh, hreplenished, hu⟩
  refine (PoolM.doing_concludeCare hu _ _ _).weaken ?_
  rintro result v ⟨hresult, hv⟩
  exact ⟨expired, remaining, checks, fresh,
    tends_of_parts hs rfl hevicted hc hreplaced hfresh hreplenished hresult hv⟩

/-- One cycle of the health-care job of an open pool, if the job is not stopped, user code runs no
operation, the factory gives resources and no destructor panics. -/
theorem Arises.care_tends (hp : p.Arises) (hu : p.user.IsQuiet) (hgo : p.careStops = false)
    (hf : ∀ n, (p.user.factory.nth n).outcome = .success) (nested : Op → PoolM Reply)
    (hpanic : ¬p.Panics (careCycle nested p).2) :
    ∃ result q, careCycle nested p = (.done result, q) ∧
      ∃ expired remaining checks fresh, p.Tends expired remaining checks fresh result q :=
  (doing_runCare hp.fits.suits hu hgo hf nested).exists_caught (fun _ => rfl) (fun _ => ⟨_, rfl⟩)
    hpanic

/-- Of three resources the first is healthy, the second is not, and the check of the third fails.
The second one is replaced, and the third one stays as it is. -/
theorem care_tends_mixed :
    let unhealthy : CheckRoutine := ⟨[], ⟨[], .answer (.ok (.unhealthy "worn"))⟩⟩
    let failing : CheckRoutine := ⟨[], ⟨[], .answer (.error .abandoned)⟩⟩
    let user : UserCode :=
      { UserCode.plain with checkStyle := some .direct, checks := [(1, unhealthy), (2, failing)] }
    let p := (PoolM.run 2 .keeper (new "pool" { desiredCount := 3 } user)).2
    let q := (careCycle (PoolM.run 1) p).2
    ∃ expired remaining checks fresh,
      p.Tends expired remaining checks fresh (.error (.checks .abandoned 1)) q := by
  intro unhealthy failing user p q
  have huser : ∀ P : Op → Prop, user.Runs P := fun P =>
    { UserCode.plain_runs P with
      check := fun c hc op hop => by
        simp only [user, unhealthy, failing, List.mem_cons, List.not_mem_nil, or_false] at hc
        rcases hc with rfl | rfl <;> exact absurd hop List.not_mem_nil }
  have hstart : (new "pool" { desiredCount := 3 } user).Reachable :=
    reachable_new "pool" _ (huser _) (by decide)
  have hp : p.Reachable := hstart.next (.of_installs_eq_nil rfl rfl) (by decide +kernel)
  have hsame : p.user = user := rfl
  have hresult : (careCycle (PoolM.run 1) p).1 = .done (.error (.checks .abandoned 1)) := by
    decide +kernel
  obtain ⟨result, q', hcycle, htends⟩ := hp.arises.care_tends (hsame ▸ huser _) (by decide +kernel)
    (fun n => by rw [hsame]; rfl) (PoolM.run 1) (by decide +kernel)
  obtain rfl : q = q' := congrArg Prod.snd hcycle
  obtain rfl := Outcome.done.inj ((congrArg Prod.fst hcycle).symm.trans hresult)
  exact htends

end Pool

end LeasePool
