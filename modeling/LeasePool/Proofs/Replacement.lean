import LeasePool.Proofs.CareCycle
import LeasePool.Proofs.Convergence
import LeasePool.Proofs.Ledger

/-!
# Replacements with and without a keeper

The health-care job replaces what it has removed, or leaves that to the count keeper. The two have
loops of their own. Up to the replacements a cycle does not ask who makes them, and then both loops
go as far as the target, the maximum and the factory allow.
-/

namespace LeasePool

/-- The slot that an entry reports as created. -/
def Entry.created? (e : Entry) : Option Nat := e.event?.bind Event.created?

/-- Creations in a row report their slots. -/
theorem filterMap_created?_creationDeeds (origin : Origin) (id k : Nat)
    (failure : Option CreationError) :
    (creationDeeds origin id k failure).filterMap Entry.created? = List.range' id k := by
  induction k generalizing id with
  | zero => cases failure <;> rfl
  | succ k ih =>
    rw [creationDeeds_succ, List.filterMap_append, ih, List.range'_succ]
    rfl

/-- The checks of a cycle create no slots. -/
theorem Checkup.filterMap_created? (style : Option CheckStyle) (c : Checkup) :
    (c.deeds style).filterMap Entry.created? = [] := by
  obtain ⟨s, result, time⟩ := c
  rcases style with _ | style <;> rcases result with error | _ | reason <;> rfl

/-- A slot without its times. -/
def Slot.outline (s : Slot Nat) : Nat × Nat × SlotState := (s.id, s.resource, s.state)

/-- New slots are known up to their times. -/
theorem Fresh.outline {state : SlotState} {id resource : Nat} {since till : Instant}
    {slots : List (Slot Nat)} (h : Fresh state id resource since till slots) :
    slots.map Slot.outline =
      (List.range slots.length).map fun i => (id + i, resource + i, state) := by
  refine List.ext_getElem (by simp) fun i hi _ => ?_
  rw [List.length_map] at hi
  have hid : slots[i].id = id + i := by
    simpa [hi] using congrArg (·[i]?) h.ids
  have hresource : slots[i].resource = resource + i := by
    simpa [hi] using congrArg (·[i]?) h.resources
  simp [Slot.outline, hid, hresource, (h.new _ (List.getElem_mem hi)).1]

namespace Routine.Yields

variable {r : Routine (Behaviour Op Production)} {n k k' : Nat}
  {failure failure' : Option CreationError}

/-- A routine that has yielded so many resources yields no more. -/
theorem le (h : r.Yields n k failure) (h' : r.Yields n k' failure') : k' ≤ k := by
  refine Nat.le_of_not_lt fun hlt => ?_
  rcases h.ending with ⟨-, rfl⟩ | ⟨-, hfails, he⟩
  · exact absurd hlt (Nat.not_lt_of_le h'.le_wanted)
  · exact hfails (he.symm.trans (h'.succeeds k hlt))

/-- How many of a number of creations succeed is settled by the routine of the factory. -/
theorem unique (h : r.Yields n k failure) (h' : r.Yields n k' failure') : k = k' :=
  Nat.le_antisymm (h'.le h) (h.le h')

end Routine.Yields

/-- User code that runs no operations, with a hook that does nothing. -/
structure UserCode.IsPassive (u : UserCode) : Prop where
  quiet : u.IsQuiet
  hook : u.hook = .idle

namespace Pool

/-- The same pool, in which the health-care job leaves replacements to the count keeper or not. -/
def delegating (d : Bool) (p : Pool) : Pool := { p with delegates := d }

/-- A resource is settled in the same way under either style of checks. -/
theorem settle_delegating (d : Bool) (resource : Nat) (p : Pool) :
    (p.delegating d).settle resource = (p.settle resource).delegating d := by
  have hheld : (p.delegating d).isHeld resource = p.isHeld resource := rfl
  unfold settle
  rw [hheld]
  cases p.isHeld resource <;> rfl

/-- A resource is discarded in the same way under either style of checks. -/
theorem discard_delegating (d : Bool) (resource : Nat) (p : Pool) :
    (p.delegating d).discard resource = (p.discard resource).delegating d := by
  have hheld : (p.delegating d).isHeld resource = p.isHeld resource := rfl
  unfold discard
  rw [hheld, settle_delegating]
  cases p.isHeld resource <;> rfl

/-- A holding is given back in the same way under either style of checks. -/
theorem giveBackLatest_delegating (d : Bool) (p : Pool) :
    (p.delegating d).giveBackLatest = p.giveBackLatest.delegating d := by
  have hholdings : (p.delegating d).holdings = p.holdings := rfl
  unfold giveBackLatest
  rw [hholdings]
  cases p.holdings with
  | nil => rfl
  | cons h rest =>
    cases h with
    | reservation | handle => rfl
    | product | slot | removed | reference =>
      exact settle_delegating d _ { p with holdings := rest }

/-- Unwinding is the same under either style of checks. -/
theorem unwindTo_delegating (d : Bool) (mark : Nat) (p : Pool) :
    (p.delegating d).unwindTo mark = (p.unwindTo mark).delegating d := by
  have hcomm : Function.Semiconj (delegating d) giveBackLatest giveBackLatest := fun q =>
    (giveBackLatest_delegating d q).symm
  exact ((hcomm.iterate_right _) p).symm

end Pool

namespace PoolM

variable {α β : Type}

/-- An action of passive user code that does the same whoever makes the replacements. -/
def IsBlind (m : PoolM α) : Prop :=
  ∀ p : Pool, p.user.IsPassive → (m p).2.user.IsPassive ∧
    ∀ d, m (p.delegating d) = ((m p).1, (m p).2.delegating d)

namespace IsBlind

variable {m n : PoolM α} {f : α → PoolM β} {nested : Op → PoolM Reply}

theorem pure (value : α) : IsBlind (Pure.pure value : PoolM α) := fun _ hp => ⟨hp, fun _ => rfl⟩

theorem raise (panic : Panic) : IsBlind (PoolM.raise panic : PoolM α) :=
  fun _ hp => ⟨hp, fun _ => rfl⟩

/-- Blind actions are blind in sequence. -/
theorem bind (hm : IsBlind m) (hf : ∀ value, IsBlind (f value)) : IsBlind (m >>= f) := by
  intro p hp
  obtain ⟨hpassive, hsame⟩ := hm p hp
  simp only [bind_apply, hsame]
  generalize m p = ending at hpassive
  obtain ⟨value | panic | _, q⟩ := ending
  · exact hf value q hpassive
  · exact ⟨hpassive, fun _ => rfl⟩
  · exact ⟨hpassive, fun _ => rfl⟩

/-- A choice between blind actions is blind. -/
theorem ite {c : Prop} [Decidable c] (hm : IsBlind m) (hn : IsBlind n) :
    IsBlind (if c then m else n) := by
  split
  · exact hm
  · exact hn

theorem read {g : Pool → α} (hg : ∀ (p : Pool) (d : Bool), g (p.delegating d) = g p) :
    IsBlind (PoolM.read g) :=
  fun p hp => ⟨hp, fun d => congrArg (fun value => (Outcome.done value, p.delegating d)) (hg p d)⟩

/-- A change that does not read the style is blind. -/
theorem update {g : Pool → α × Pool} (hu : ∀ p : Pool, (g p).2.user = p.user)
    (hg : ∀ (p : Pool) (d : Bool), g (p.delegating d) = ((g p).1, (g p).2.delegating d)) :
    IsBlind (PoolM.update g) :=
  fun p hp => ⟨(hu p).symm ▸ hp, fun d => by rw [update_apply, hg, update_apply]⟩

theorem change {g : Pool → Pool} (hu : ∀ p : Pool, (g p).user = p.user)
    (hg : ∀ (p : Pool) (d : Bool), g (p.delegating d) = (g p).delegating d) :
    IsBlind (PoolM.change g) :=
  update (g := fun p => ((), g p)) hu fun p d => congrArg (Prod.mk ()) (hg p d)

/-- The destructors of passive user code run nothing while a panic unwinds. -/
theorem attempt (hm : IsBlind m) (nested : Op → PoolM Reply) :
    IsBlind (PoolM.attempt nested m) := by
  intro p hp
  obtain ⟨hpassive, hsame⟩ := hm p hp
  generalize hending : m p = ending at hpassive hsame
  obtain ⟨value | panic | _, q⟩ := ending
  · rw [attempt_of_done hending]
    exact ⟨hpassive, fun d => attempt_of_done (hsame d)⟩
  · have hquiet : ∀ r, q.user.destructor r = [] := hpassive.quiet.destructor_eq_nil
    rw [attempt_of_panicked hending hquiet]
    refine ⟨?_, fun d => ?_⟩
    · rw [Pool.unwindTo_eq]
      exact hpassive
    · rw [attempt_of_panicked (hsame d) hquiet, Pool.unwindTo_delegating]
      rfl
  · unfold PoolM.attempt
    rw [hending]
    exact ⟨hpassive, fun d => by rw [hsame]⟩

theorem emit (e : Event) : IsBlind (PoolM.emit e) := change (fun _ => rfl) fun _ _ => rfl

theorem now : IsBlind PoolM.now := update (fun _ => rfl) fun _ _ => rfl

theorem takeOut (reason : DestroyReason) (f : Table Nat → List (Slot Nat) × Table Nat) :
    IsBlind (PoolM.takeOut reason f) := update (fun _ => rfl) fun _ _ => rfl

theorem takeOutBroken (tenure : Tenure) (id resource : Nat) (reason : DestroyReason) :
    IsBlind (PoolM.takeOutBroken tenure id resource reason) :=
  .bind (change (fun _ => rfl) fun _ _ => rfl) fun _ => takeOut reason _

/-- Disposing of a resource is blind. -/
theorem dispose (nested : Op → PoolM Reply) (resource : Nat) :
    IsBlind (PoolM.dispose nested resource) := by
  intro p hp
  have hquiet : ∀ r, p.user.destructor r = [] := hp.quiet.destructor_eq_nil
  rw [dispose_apply hquiet]
  refine ⟨?_, fun d => ?_⟩
  · rw [Pool.discard_eq]
    exact hp
  · rw [dispose_apply (p := p.delegating d) hquiet, Pool.discard_delegating]
    rfl

/-- Letting go of a holding is blind. -/
theorem letGo (nested : Op → PoolM Reply) (h : Holding) : IsBlind (PoolM.letGo nested h) := by
  refine .bind (change (fun _ => rfl) fun _ _ => rfl) fun _ => ?_
  cases h.resource? with
  | some resource => exact dispose nested resource
  | none => exact pure ()

/-- Destroying one slot is blind. -/
theorem destroyOne (nested : Op → PoolM Reply) (reason : DestroyReason) (s : Slot Nat) :
    IsBlind (PoolM.destroyOne nested reason s) :=
  .bind (change (fun _ => rfl) fun _ _ => rfl) fun _ => (emit _).bind fun _ => letGo nested _

/-- Destroying slots is blind. -/
theorem destroy (nested : Op → PoolM Reply) (reason : DestroyReason) (slots : List (Slot Nat)) :
    IsBlind (PoolM.destroy nested reason slots) := by
  induction slots with
  | nil => exact pure ()
  | cons s rest ih => exact (destroyOne nested reason s).bind fun _ => ih

theorem takeOutExpired (expired : Slot Nat → Bool) :
    IsBlind (PoolM.takeOutExpired expired) := by
  refine (takeOut _ _).bind fun slots => ?_
  exact .bind (change (fun _ => rfl) fun _ _ => rfl) fun _ => pure slots

/-- Evicting slots is blind. -/
theorem evict (nested : Op → PoolM Reply) : IsBlind (PoolM.evict nested) := by
  refine .bind (read fun _ _ => rfl) fun policy => ite (now.bind fun time => ?_) (pure 0)
  exact (takeOutExpired _).bind fun expired => (destroy nested _ expired).bind fun _ => pure _

theorem examined (style : CheckStyle) (resource : Nat) (outcome : Examination) :
    IsBlind (PoolM.examined style resource outcome) := by
  cases outcome with
  | answer | abandonment => exact pure _
  | silence =>
    exact ite (.bind (change (fun _ => rfl) fun _ _ => rfl) fun _ => pure _) (pure _)
  | panic panic =>
    cases style with
    | direct => exact raise panic
    | onWorker => exact pure _

/-- How a check of passive user code ends does not depend on who makes the replacements. -/
theorem callCheck (nested : Op → PoolM Reply) (style : CheckStyle) (resource : Nat)
    (checker : Checker) : IsBlind (PoolM.callCheck nested style resource checker) := by
  intro p hp
  have hnext : (p.calledCheck resource checker).user.IsPassive :=
    ⟨hp.quiet.afterCheck resource, (p.user.hook_nextCheck resource).trans hp.hook⟩
  have hcall (d : Bool) := callCheck_quiet (p := p.delegating d) hp.quiet nested style resource
    checker
  simp only [callCheck_quiet hp.quiet, hcall]
  exact examined _ _ _ _ hnext

/-- Waiting for a verdict is blind. -/
theorem awaitVerdict (resource : Nat) (checker : Checker) (probe : Probe) :
    IsBlind (PoolM.awaitVerdict resource checker probe) := by
  have hconclude (limit : Duration) : IsBlind (do
      conclude resource checker (Verdict.settle (probe.wait limit))
      Pure.pure (Verdict.settle (probe.wait limit)) : PoolM (Except CheckError Verdict)) :=
    .bind (change (fun _ => rfl) fun _ _ => rfl) fun _ => pure _
  refine .bind (read fun _ _ => rfl) fun limit => ite ?_ (hconclude limit)
  exact .bind (change (fun _ => rfl) fun _ _ => rfl) fun _ => hconclude limit

/-- A check is blind: the styles differ in who runs it, and not in what it says. -/
theorem probe (nested : Op → PoolM Reply) (resource : Nat) (checker : Checker) :
    IsBlind (PoolM.probe nested resource checker) := by
  refine .bind (read fun _ _ => rfl) fun style => ?_
  cases style with
  | none => exact pure _
  | some style =>
    exact ((callCheck nested style resource checker).attempt nested).bind
      fun _ => awaitVerdict _ _ _

theorem park (id : Nat) : IsBlind (PoolM.park id) := by
  refine update (fun p => ?_) fun p d => ?_
  · split <;> rfl
  · have htable : (p.delegating d).table = p.table := rfl
    rw [htable]
    cases p.table.claimForCheck id <;> rfl

/-- The check of one slot is blind. -/
theorem examine (nested : Op → PoolM Reply) (id resource : Nat) :
    IsBlind (PoolM.examine nested id resource) := by
  refine (probe nested resource .care).bind fun result => ?_
  rcases result with error | _ | reason
  · refine IsBlind.bind (.bind (change (fun _ => rfl) fun _ _ => rfl) fun _ => ?_) fun _ => pure _
    exact change (fun _ => rfl) fun _ _ => rfl
  · refine IsBlind.bind (now.bind fun _ => ?_) fun _ => pure _
    exact change (fun _ => rfl) fun _ _ => rfl
  · refine (takeOutBroken _ _ _ _).bind fun removed => (emit _).bind fun _ => ?_
    exact (destroy nested _ removed).bind fun _ => pure _

/-- The checks of a cycle are blind. -/
theorem examineAll (nested : Op → PoolM Reply) (fatal : Bool) (ids : List Nat) :
    IsBlind (PoolM.examineAll nested fatal ids) := by
  induction ids with
  | nil => exact pure []
  | cons id ids ih =>
    refine .bind (read fun _ _ => rfl) fun stops => ite (pure []) ((park id).bind fun parked => ?_)
    cases parked with
    | none => exact ih
    | some resource =>
      refine (examine nested id resource).bind fun result => (letGo nested _).bind fun _ => ?_
      exact ite (pure _) (ih.bind fun others => pure _)

end IsBlind

/-- The part of a cycle before the replacements. It gives the number of evicted slots and the
results of the checks. -/
def survey (nested : Op → PoolM Reply) : PoolM (Nat × List (Except CheckError Verdict)) := do
  let expired ← evict nested
  let fatal ← read (·.config.careFailureFatal)
  let candidates ← read (·.table.idleIds)
  let results ← examineAll nested fatal candidates
  pure (expired, results)

/-- How many slots a survey has removed. -/
def removedBy (found : Nat × List (Except CheckError Verdict)) : Nat :=
  countUnhealthy found.2 + found.1

/-- A cycle up to its replacements is blind. -/
theorem IsBlind.survey (nested : Op → PoolM Reply) : IsBlind (PoolM.survey nested) := by
  refine (evict nested).bind fun expired => .bind (read fun _ _ => rfl) fun fatal => ?_
  exact .bind (read fun _ _ => rfl) fun ids => (examineAll nested fatal ids).bind fun _ => pure _

/-- A cycle makes a survey, replaces what is due, and reports. -/
theorem runCare_eq {p : Pool} (hgo : p.careStops = false) (nested : Op → PoolM Reply) :
    runCare nested p = (survey nested >>= fun found => (if 0 < removedBy found then replenish nested
      else pure (.ok 0)) >>= concludeCare found.2 found.1) p := by
  unfold runCare survey
  rw [bind_apply, read_apply, hgo]
  simp only [Bool.false_eq_true, if_false, bind_assoc, pure_bind]
  refine congrArg (fun m : PoolM (Except CareFailure CareReport) => m p) ?_
  refine bind_congr fun expired => bind_congr fun fatal => bind_congr fun ids => ?_
  exact bind_congr fun results => (apply_ite (· >>= concludeCare results expired)
    (0 < countUnhealthy results + expired) (replenish nested) (pure (.ok 0))).symm

end PoolM

namespace Pool

variable {p q : Pool} {nested : Op → PoolM Reply}

/-- The slots that were reported as created since an earlier state. -/
def createdSince (p earlier : Pool) : List Nat :=
  (p.deedsSince earlier).filterMap Entry.created?

/-- The slots that have left the table since an earlier state. -/
def departedSince (p earlier : Pool) : List Nat :=
  earlier.table.ids.filter fun id => !p.table.ids.contains id

/-- What a survey that has removed some slots leaves: the other slots in some order, and no new
ones. -/
structure Surveyed (p : Pool) (removed : Nat) (q : Pool) : Prop where
  sound : q.table.IsSound
  ids : q.table.ids ⊆ p.table.ids
  slots : q.table.slots.length + removed = p.table.slots.length
  creating : q.table.creating = p.table.creating
  nextId : q.table.nextId = p.table.nextId
  factory : q.user.factory = p.user.factory
  bench : q.bench = { p.bench with table := q.table, user := q.user, clock := q.clock }

/-- Checks leave the slots that they do not find unhealthy. -/
theorem surveyed_of_examines {remaining table : Table Nat}
    {expired : List (Slot Nat)} (he : p.table.Prunes remaining expired) {b : Bench} {fatal : Bool}
    {checks : List Checkup} {user : UserCode} {clock : Clock}
    (hc : b.Examines remaining fatal (remaining.slots.filter (·.state == .idle))
      (remaining.slots.filter (·.state != .idle)) checks table user clock)
    (hf : b.user = p.user) (hq : q.bench = { p.bench with table, user, clock }) :
    p.Surveyed (removals expired checks) q := by
  have htable : q.table = table := congrArg (·.table) hq
  have huser : q.user = user := congrArg (·.user) hq
  have hclock : q.clock = clock := congrArg (·.clock) hq
  subst htable huser hclock
  have hparts := hc.isWith.slots
  have hkept : ∀ s ∈ checks.filterMap (·.kept?), ∃ c ∈ checks, c.slot.id = s.id := by
    intro s hs
    obtain ⟨c, hc, hkept⟩ := List.mem_filterMap.1 hs
    refine ⟨c, hc, ?_⟩
    obtain ⟨s', result, time⟩ := c
    rcases result with error | _ | reason
    · obtain rfl := Option.some.inj hkept
      rfl
    · obtain rfl := Option.some.inj hkept
      rfl
    · cases hkept
  have hchecked : ∀ c ∈ checks, c.slot ∈ remaining.slots := by
    intro c hmem
    have hslot : c.slot ∈ checks.map (·.slot) := List.mem_map_of_mem hmem
    rw [hc.slots] at hslot
    exact (List.mem_filter.1 (List.mem_of_mem_take hslot)).1
  have hremaining : ∀ s ∈ q.table.slots, s.id ∈ remaining.ids := by
    intro s hmem
    rcases List.mem_append.1 (hparts.mem_iff.1 hmem) with hmem | hmem
    · obtain ⟨c, hmem, hid⟩ := hkept s hmem
      exact hid ▸ List.mem_map_of_mem (hchecked c hmem)
    · rcases List.mem_append.1 hmem with hmem | hmem
      · exact List.mem_map_of_mem (List.mem_filter.1 (List.mem_of_mem_drop hmem)).1
      · exact List.mem_map_of_mem (List.mem_filter.1 hmem).1
  refine ⟨hc.isWith.sound, fun id hid => ?_, ?_, hc.isWith.creating.trans he.creating,
    hc.isWith.nextId.trans he.nextId, hc.factory.trans (congrArg (·.factory) hf), hq⟩
  · obtain ⟨s, hmem, rfl⟩ := List.mem_map.1 hid
    obtain ⟨s', hmem', hid'⟩ := List.mem_map.1 (hremaining s hmem)
    exact List.mem_map.2 ⟨s', he.mem hmem', hid'⟩
  · have hexpired := he.slots.length_eq
    have hidle := (slots_perm_idle_busy remaining).length_eq
    have hlength := hparts.length_eq
    have hunhealthy := length_kept checks
    have hcount := congrArg List.length hc.slots
    simp only [removals, List.length_append, List.length_map, List.length_take,
      List.length_drop] at *
    omega

end Pool

namespace PoolM

variable {p : Pool}

/-- A survey creates nothing. -/
theorem doing_survey (hs : p.table.IsSound) (hu : p.user.IsQuiet) (hgo : p.careStops = false)
    (nested : Op → PoolM Reply) :
    Doing p (survey nested) p fun found q => p.Surveyed (removedBy found) q ∧
      ∃ deeds : List Entry, deeds.filterMap Entry.created? = [] ∧ p.Does deeds q.bench q := by
  refine (doing_evict (.start hu) nested).bind ?_
  rintro _ q ⟨evicted, hevicted, rfl, hq⟩
  have hprunes := p.table.prunes_removeIdleWhere p.bench.expires
  let expired := (p.table.removeIdleWhere p.bench.expires).1
  let remaining := (p.table.removeIdleWhere p.bench.expires).2
  have hidle : ∀ s ∈ remaining.slots.filter (·.state == .idle), s.state = .idle := fun s hmem => by
    simpa using (List.mem_filter.1 hmem).2
  have hconfig : q.config = p.config := congrArg (·.config) hq.bench
  have htable : q.table = remaining := congrArg (·.table) hq.bench
  refine .read (.read ?_)
  rw [hconfig, htable]
  refine (doing_examineAll hq hgo ((hprunes.isSound hs).isWith.perm
    (Pool.slots_perm_idle_busy remaining)) hidle nested _).bind ?_
  rintro _ r ⟨checks, table, user, examined, rfl, hc, hr⟩
  refine .pure ⟨Pool.surveyed_of_examines hprunes hc rfl hr.bench, _, ?_, hr.bench ▸ hr⟩
  rw [List.filterMap_append, List.nil_append, List.append_eq_nil_iff]
  constructor
  · refine List.filterMap_eq_nil_iff.2 fun e he => ?_
    obtain ⟨s, -, rfl⟩ := List.mem_map.1 he
    rfl
  · refine List.filterMap_eq_nil_iff.2 fun e he => ?_
    obtain ⟨c, -, he⟩ := List.mem_flatMap.1 he
    exact List.filterMap_eq_nil_iff.1 (c.filterMap_created? _) e he

/-- The report of a cycle changes nothing. -/
theorem doing_report {first : Pool} {deeds : List Entry} {b : Bench} (h : first.Does deeds b p)
    (results : List (Except CheckError Verdict)) (expired : Nat)
    (replacement : Except CreationError Nat) :
    Doing first (concludeCare results expired replacement) p fun _ q => first.Does deeds b q := by
  cases replacement with
  | error error => exact .pure h
  | ok replaced =>
    exact (doing_concludeCare h results expired replaced).weaken fun _ _ hq => hq.2

end PoolM

namespace Pool

variable {p q surveyed : Pool} {nested : Op → PoolM Reply} {removed : Nat}
  {failure : Option CreationError} {fresh : List (Slot Nat)}

/-- What a cycle leaves that has made a survey, and has then created `fresh` slots as far as that
was due. -/
structure Replaces (p surveyed : Pool) (removed : Nat) (failure : Option CreationError)
    (fresh : List (Slot Nat)) (q : Pool) : Prop where
  yields : p.user.factory.Yields
    (if 0 < removed ∧ p.delegates = false then
      min (p.desired - surveyed.table.live) (p.config.maxCount - surveyed.table.live) else 0)
    fresh.length failure
  isFresh : Fresh .idle p.table.nextId p.made surveyed.clock.now q.clock.now fresh
  created : q.createdSince p = List.range' p.table.nextId fresh.length
  bench : q.bench =
    { surveyed.bench.restocked 0 failure fresh q.clock with keeperSignal := q.keeperSignal }
  goes : q.keeperSignal.isStopped = p.keeperSignal.isStopped

/-- A survey leaves a table that suits the maximum. -/
theorem Surveyed.suits (h : p.Surveyed removed surveyed) {max : Nat} (hs : p.table.Suits max) :
    surveyed.table.Suits max :=
  hs.shrink h.sound (Nat.le_of_add_right_le (Nat.le_of_eq h.slots)) h.creating

/-- A cycle makes a survey and replaces what is due. -/
theorem doing_runCare_replaces (hs : p.table.Suits p.config.maxCount) (hu : p.user.IsQuiet)
    (hgo : p.careStops = false) (nested : Op → PoolM Reply) :
    PoolM.Doing p (PoolM.runCare nested) p fun _ q => ∃ found surveyed failure fresh,
      PoolM.survey nested p = (.done found, surveyed) ∧
      p.Surveyed (PoolM.removedBy found) surveyed ∧
      p.Replaces surveyed (PoolM.removedBy found) failure fresh q := by
  unfold PoolM.Doing PoolM.Ends
  rw [PoolM.runCare_eq hgo]
  change PoolM.Doing p _ p _
  refine (PoolM.doing_survey hs.toIsSound hu hgo nested).known.bind ?_
  rintro found surveyed ⟨⟨hsurveyed, deeds, hnone, hdoes⟩, hsurvey⟩
  have hgo : surveyed.bench.careStops = false := by
    rw [hsurveyed.bench]
    exact hgo
  have hsuits : surveyed.bench.table.Suits surveyed.bench.config.maxCount := by
    rw [hsurveyed.bench]
    exact hsurveyed.suits hs
  refine (PoolM.doing_replenish_due hdoes hsuits hgo nested _).bind ?_
  rintro _ r ⟨failure, fresh, clock, hyields, hfresh, -, rfl, hr⟩
  refine (PoolM.doing_report hr _ _ _).weaken fun _ q hq => ?_
  have hclock : q.clock = clock := congrArg (·.clock) hq.bench
  have hsignal : q.keeperSignal = _ := congrArg (·.keeperSignal) hq.bench
  have hbench := hsurveyed.bench
  have hdelegates : surveyed.delegates = p.delegates := congrArg (·.delegates) hbench
  have hdesired : surveyed.desired = p.desired := congrArg (·.desired) hbench
  have hconfig : surveyed.config = p.config := congrArg (·.config) hbench
  have hmade : surveyed.made = p.made := congrArg (·.made) hbench
  have hkeeper : surveyed.keeperSignal = p.keeperSignal := congrArg (·.keeperSignal) hbench
  refine ⟨found, surveyed, failure, fresh, hsurvey, hsurveyed, ?_, ?_, ?_, ?_, ?_⟩
  · rw [← hsurveyed.factory, ← hdelegates, ← hdesired, ← hconfig]
    exact hyields
  · rw [← hsurveyed.nextId, ← hmade, hclock]
    exact hfresh
  · rw [createdSince, hq.deeds, List.filterMap_append, hnone, filterMap_created?_creationDeeds,
      ← hsurveyed.nextId]
    rfl
  · rw [hsignal, hclock]
    exact hq.bench
  · rw [hsignal, ← hkeeper]
    split <;> rfl

/-- A survey takes its removals from the live resources. -/
theorem Surveyed.live (h : p.Surveyed removed surveyed) {max : Nat} (hs : p.table.Suits max) :
    surveyed.table.live = p.table.live - removed := by
  rw [(h.suits hs).live_eq, hs.live_eq, h.creating, ← h.slots]
  omega

namespace Replaces

/-- The table after replacements is the surveyed one with the new slots at its end. -/
theorem table (h : p.Replaces surveyed removed failure fresh q) :
    q.table = { surveyed.table with
      slots := surveyed.table.slots ++ fresh
      nextId := surveyed.table.nextId + fresh.length } :=
  congrArg (·.table) h.bench

/-- The slots that have departed are those that the survey has removed. -/
theorem length_departedSince (h : p.Replaces surveyed removed failure fresh q)
    (hs : p.table.IsSound) (hsurveyed : p.Surveyed removed surveyed) :
    (q.departedSince p).length = removed := by
  have hids : q.table.ids = surveyed.table.ids ++ List.range' p.table.nextId fresh.length := by
    rw [h.table, Table.ids, List.map_append, h.isFresh.ids]
    rfl
  have hstays : ∀ id ∈ p.table.ids, q.table.ids.contains id = surveyed.table.ids.contains id := by
    intro id hid
    obtain ⟨s, hmem, rfl⟩ := List.mem_map.1 hid
    have hold : s.id ∉ List.range' p.table.nextId fresh.length := fun hnew =>
      absurd (List.mem_range'_1.1 hnew).1 (Nat.not_le_of_lt (hs.fresh s hmem))
    rw [hids, Bool.eq_iff_iff, List.contains_iff_mem, List.contains_iff_mem, List.mem_append]
    exact or_iff_left hold
  have hperm : (p.table.ids.filter fun id => surveyed.table.ids.contains id).Perm
      surveyed.table.ids := by
    refine (List.perm_ext_iff_of_nodup (hs.nodup.filter _) hsurveyed.sound.nodup).2 fun id => ?_
    rw [List.mem_filter, List.contains_iff_mem]
    exact and_iff_right_of_imp fun hid => hsurveyed.ids hid
  have hsplit := List.length_eq_length_filter_add (l := p.table.ids)
    fun id => surveyed.table.ids.contains id
  have hslots := hsurveyed.slots
  rw [departedSince, List.filter_congr fun id hid => congrArg (!·) (hstays id hid)]
  rw [hperm.length_eq] at hsplit
  simp only [Table.ids, List.length_map] at hsplit hslots ⊢
  omega

end Replaces

/-- A hook that does nothing leaves the target alone. -/
theorem target_of_idle (h : p.user.hook = .idle) (nested : Op → PoolM Reply) :
    p.target nested = p.desired := by
  have hfollow : PoolM.follow nested .maintenance (p.note (.hook .maintenance)) =
      (.done (), p.note (.hook .maintenance)) := by
    have hhook : (p.note (.hook .maintenance)).user.hook = .idle := h
    unfold PoolM.follow
    rw [PoolM.bind_apply, PoolM.read_apply, hhook]
    rfl
  have hcall : PoolM.callHook nested .maintenance p = (.done (), p.note (.hook .maintenance)) := by
    rw [PoolM.callHook, PoolM.bind_apply, PoolM.change_apply]
    dsimp only
    rw [PoolM.onPanic, hfollow]
  rw [target, hcall]
  rfl

/-- Two pools have the same slots in the same order, but for their times, and the same reservations.
-/
structure Matches (p q : Pool) : Prop where
  slots : p.table.slots.map Slot.outline = q.table.slots.map Slot.outline
  creating : p.table.creating = q.table.creating
  nextId : p.table.nextId = q.table.nextId

/-- A keeper cycle that finds no more than the target creates what was due. -/
theorem Converges.grown {result : Except KeeperFailure KeeperReport}
    (h : p.Converges nested result q) (hle : p.table.live ≤ p.target nested) :
    ∃ failure fresh, p.user.factory.Yields
        (min (p.target nested - p.table.live) (p.config.maxCount - p.table.live))
        fresh.length failure ∧
      Fresh .idle p.table.nextId p.made p.clock.now q.clock.now fresh ∧
      q.table = { p.table with
        slots := p.table.slots ++ fresh
        nextId := p.table.nextId + fresh.length } ∧
      q.createdSince p = List.range' p.table.nextId fresh.length := by
  rcases Nat.lt_or_ge p.table.live (p.target nested) with hlt | hge
  · obtain ⟨failure, fresh, hgrows⟩ := h.grows hlt
    refine ⟨failure, fresh, hgrows.yields, hgrows.isFresh, hgrows.table, ?_⟩
    rw [createdSince, hgrows.deeds]
    exact filterMap_created?_creationDeeds ..
  · obtain ⟨surplus, hshrinks⟩ := h.shrinks hge
    have hnone : p.table.live - p.target nested = 0 := Nat.sub_eq_zero_of_le hle
    have htable := hshrinks.table
    rw [Table.removeIdleLru_eq_self (.inl hnone)] at htable
    obtain ⟨rfl, hsame⟩ := Prod.mk.inj htable
    refine ⟨none, [], ⟨nofun, .inl ⟨rfl, ?_⟩⟩, .nil .., ?_, ?_⟩
    · rw [Nat.sub_eq_zero_of_le hge, Nat.zero_min]
      rfl
    · rw [← hsame, List.append_nil]
      rfl
    · rw [createdSince, hshrinks.deeds]
      rfl

open PoolM (careCycle keeperCycle)

/-- The pool after a cycle of the health-care job that makes the replacements itself. -/
def tendedAlone (nested : Op → PoolM Reply) (p : Pool) : Pool :=
  (careCycle nested (p.delegating false)).2

/-- The pool after a cycle of the health-care job that leaves the replacements to the keeper. -/
def nudged (nested : Op → PoolM Reply) (p : Pool) : Pool :=
  (careCycle nested (p.delegating true)).2

/-- The pool after such a cycle and one of the keeper. -/
def tendedTogether (nested : Op → PoolM Reply) (p : Pool) : Pool :=
  (keeperCycle nested (p.nudged nested)).2

/-- A cycle of the health-care job replaces what is due, unless a destructor panics. -/
theorem careCycle_replaces (hs : p.table.Suits p.config.maxCount) (hu : p.user.IsQuiet)
    (hgo : p.careStops = false) (hpanic : ¬p.Panics (careCycle nested p).2) :
    (careCycle nested p).1.isDone = true ∧ ∃ found surveyed failure fresh,
      PoolM.survey nested p = (.done found, surveyed) ∧
      p.Surveyed (PoolM.removedBy found) surveyed ∧
      p.Replaces surveyed (PoolM.removedBy found) failure fresh (careCycle nested p).2 := by
  obtain ⟨result, q, hcycle, hq⟩ := (doing_runCare_replaces hs hu hgo nested).exists_caught
    (fun _ => rfl) (fun _ => ⟨_, rfl⟩) hpanic
  have hcycle : careCycle nested p = (.done result, q) := hcycle
  rw [hcycle]
  exact ⟨rfl, hq⟩

/-- A keeper that was told to make the replacements finds what the survey has left, and creates as
many slots as were due. -/
theorem Replaces.kept (h : p.Replaces surveyed removed failure fresh q)
    (hs : p.table.Suits p.config.maxCount) (hsurveyed : p.Surveyed removed surveyed)
    (hu : surveyed.user.IsPassive) (hdelegates : p.delegates = true)
    (hgo : p.keeperStops = false) (hle : surveyed.table.live ≤ p.desired)
    (hpanic : ¬q.Panics (keeperCycle nested q).2) :
    (keeperCycle nested q).1.isDone = true ∧ q.createdSince p = [] ∧ ∃ failure fresh,
      p.user.factory.Yields
        (min (p.desired - surveyed.table.live) (p.config.maxCount - surveyed.table.live))
        fresh.length failure ∧
      Fresh .idle surveyed.table.nextId p.made q.clock.now
        (keeperCycle nested q).2.clock.now fresh ∧
      (keeperCycle nested q).2.table = { surveyed.table with
        slots := surveyed.table.slots ++ fresh
        nextId := surveyed.table.nextId + fresh.length } ∧
      (keeperCycle nested q).2.createdSince q =
        List.range' surveyed.table.nextId fresh.length := by
  obtain ⟨rfl, hnil⟩ : failure = none ∧ fresh.length = 0 := by
    have hending := h.yields.ending
    rw [hdelegates] at hending
    simpa using hending
  obtain rfl := List.eq_nil_of_length_eq_zero hnil
  have htable : q.table = surveyed.table := by
    rw [h.table]
    simp
  have huser : q.user = surveyed.user := congrArg (·.user) h.bench
  have hdesired : q.desired = p.desired :=
    (congrArg (·.desired) h.bench).trans (congrArg (·.desired) hsurveyed.bench)
  have hconfig : q.config = p.config :=
    (congrArg (·.config) h.bench).trans (congrArg (·.config) hsurveyed.bench)
  have hmade : q.made = p.made :=
    (congrArg (·.made) h.bench).trans (congrArg (·.made) hsurveyed.bench)
  have hclosed : q.closed = p.closed :=
    (congrArg (·.closed) h.bench).trans (congrArg (·.closed) hsurveyed.bench)
  have htarget : q.target nested = p.desired :=
    (target_of_idle (huser ▸ hu.hook) nested).trans hdesired
  have hgo : q.keeperStops = false := by
    rw [keeperStops, h.goes, hclosed]
    exact hgo
  obtain ⟨result, r, hcycle, hr⟩ :=
    converges_keeperCycle (htable ▸ hconfig ▸ hsurveyed.suits hs) (huser ▸ hu.quiet) hgo hpanic
  have hgrown := hr.grown (by rw [htarget, htable]; exact hle)
  rw [htarget, htable, hconfig, hmade, huser, hsurveyed.factory] at hgrown
  rw [hcycle]
  exact ⟨rfl, h.created, hgrown⟩

/-- Replacements made by the health-care job itself and by the count keeper agree. If a cycle of the
job removes some slots and does not leave more resources than the target, then it ends at the same
slots and reservations and creates the same slots as a cycle that nudges the keeper, followed by a
cycle of the keeper. The pool is open, no job is stopped, user code runs no operations, the hook
does nothing, and no destructor panics. -/
theorem Arises.replacements_agree (hp : p.Arises) (hu : p.user.IsPassive)
    (hcare : p.careStops = false) (hkeeper : p.keeperStops = false) (nested : Op → PoolM Reply)
    (htended : ¬(p.delegating false).Panics (p.tendedAlone nested))
    (hnudged : ¬(p.delegating true).Panics (p.nudged nested))
    (hkept : ¬(p.nudged nested).Panics (p.tendedTogether nested))
    (hremoved : (p.tendedAlone nested).departedSince p ≠ [])
    (hlive : p.table.live - ((p.tendedAlone nested).departedSince p).length ≤ p.desired) :
    ((careCycle nested (p.delegating false)).1.isDone = true ∧
      (careCycle nested (p.delegating true)).1.isDone = true ∧
      (keeperCycle nested (p.nudged nested)).1.isDone = true) ∧
    (p.tendedAlone nested).Matches (p.tendedTogether nested) ∧
    (p.tendedAlone nested).createdSince p =
      (p.nudged nested).createdSince p ++
        (p.tendedTogether nested).createdSince (p.nudged nested) := by
  have hs := hp.fits.suits
  obtain ⟨hpassive, hblind⟩ := PoolM.IsBlind.survey nested p hu
  obtain ⟨hdone, found, alone, failure, fresh, halone, hsurveyed, hreplaces⟩ :=
    careCycle_replaces (p := p.delegating false) hs hu.quiet hcare htended
  obtain ⟨hdone', found', together, failure', fresh', htogether, hsurveyed', hreplaces'⟩ :=
    careCycle_replaces (p := p.delegating true) hs hu.quiet hcare hnudged
  obtain ⟨hfound, hrest⟩ := Prod.mk.inj ((hblind false).symm.trans halone)
  obtain ⟨hfound', hrest'⟩ := Prod.mk.inj ((hblind true).symm.trans htogether)
  obtain rfl : found = found' := Outcome.done.inj (hfound.symm.trans hfound')
  have htable : together.table = alone.table := by
    rw [← hrest, ← hrest']
    rfl
  have hlength : ((p.tendedAlone nested).departedSince p).length = PoolM.removedBy found :=
    hreplaces.length_departedSince hs.toIsSound hsurveyed
  have hpos : 0 < PoolM.removedBy found := hlength ▸ List.length_pos_of_ne_nil hremoved
  have hle : alone.table.live ≤ p.desired := by
    rw [hsurveyed.live hs, ← hlength]
    exact hlive
  obtain ⟨hdone'', hnone, failure'', new, hyields, hnew, hkept, hcreated⟩ :=
    hreplaces'.kept hs hsurveyed' (hrest' ▸ hpassive) rfl hkeeper (htable ▸ hle) hkept
  rw [htable] at hyields hnew hkept hcreated
  have hcount : fresh.length = new.length := by
    have hdue := hreplaces.yields
    rw [if_pos ⟨hpos, rfl⟩] at hdue
    exact hdue.unique hyields
  have halone : (p.tendedAlone nested).table = _ := hreplaces.table
  have htogether : (p.tendedTogether nested).table = _ := hkept
  refine ⟨⟨hdone, hdone', hdone''⟩, ⟨?_, ?_, ?_⟩, ?_⟩
  · rw [halone, htogether, List.map_append, List.map_append, hreplaces.isFresh.outline, hcount,
      hnew.outline, hsurveyed.nextId]
    rfl
  · rw [halone, htogether]
  · rw [halone, htogether, hcount]
  · have hreplaced : (p.tendedAlone nested).createdSince p =
        List.range' p.table.nextId fresh.length := hreplaces.created
    have hcreated : (p.tendedTogether nested).createdSince (p.nudged nested) = _ := hcreated
    have hnone : (p.nudged nested).createdSince p = [] := hnone
    rw [hreplaced, hcreated, hnone, hcount, hsurveyed.nextId]
    rfl

/-- A pool is one resource below its target, because a factory call has failed. One of its two
resources is unhealthy, and the factory fails again after one replacement. With a keeper and without
one the same slot is created, and no reservation is left. -/
theorem replacements_agree_factory_fails :
    let unhealthy : CheckRoutine := ⟨[], ⟨[], .answer (.ok (.unhealthy "worn"))⟩⟩
    let given : Behaviour Op Production := ⟨[], .success⟩
    let refused : Behaviour Op Production := ⟨[], .failure { message := "down" }⟩
    let user : UserCode :=
      { UserCode.plain with
        checkStyle := some .direct
        checks := [(0, unhealthy)]
        factory := ⟨[given, given, refused, given], refused⟩ }
    let p := (PoolM.run 2 .keeper (new "pool" { desiredCount := 3 } user)).2
    (p.tendedAlone (PoolM.run 1)).Matches (p.tendedTogether (PoolM.run 1)) ∧
      (p.tendedAlone (PoolM.run 1)).createdSince p = [3] ∧
      (p.tendedTogether (PoolM.run 1)).table.creating = 0 := by
  intro unhealthy given refused user p
  have huser : ∀ P : Op → Prop, user.Runs P := fun P =>
    { UserCode.plain_runs P with
      check := fun c hc op hop => by
        obtain rfl := List.mem_singleton.1 hc
        exact absurd hop List.not_mem_nil
      factory := fun op hop => absurd hop List.not_mem_nil }
  have hstart : (new "pool" { desiredCount := 3 } user).Reachable :=
    reachable_new "pool" _ (huser _) (by decide)
  have hkeeper : Op.IsPublic .keeper := .of_installs_eq_nil rfl rfl
  have hp : p.Arises := (hstart.next hkeeper (by decide +kernel)).arises
  have huser' : p.user = user.afterFactory 3 := rfl
  have hpassive : p.user.IsPassive := huser' ▸ ⟨UserCode.isQuiet_afterFactory (huser _) 3, rfl⟩
  obtain ⟨-, hmatches, -⟩ := hp.replacements_agree hpassive (by decide +kernel) (by decide +kernel)
    (PoolM.run 1) (by decide +kernel) (by decide +kernel) (by decide +kernel) (by decide +kernel)
    (by decide +kernel)
  exact ⟨hmatches, by decide +kernel, by decide +kernel⟩

end Pool

end LeasePool
