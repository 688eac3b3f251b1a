import LeasePool.Proofs.Stack.Handling

/-!
# The stack under the background jobs

A cycle of a job is contained: whatever user code does, it leaves the stack as it found it and ends
without a panic.
-/

namespace LeasePool.PoolM

open Pool (Hosts)

variable {d : Discipline} [Hosts d] {nested : Op → PoolM Reply} {p : Pool} {H : List Holding}

/-- Growing leaves reservations on the stack, and shrinking slots that have left the table. -/
theorem spec_resize (hp : p.holdings = H) :
    Spec d resize p (fun plan q => q.holdings =
        plan.2.map (.removed .surplus) ++ (List.replicate plan.1 .reservation ++ H))
      fun _ q => q.Strewn H := by
  refine .read (.read ?_)
  split
  · exact (spec_reserve (fun _ => rfl) hp).bind fun granted q hq => .pure hq.2
  · have htakeOut : ∀ n, Spec d (takeOut .surplus (·.removeIdleLru n)) p
        (fun surplus q => q.holdings = surplus.map (.removed .surplus) ++ H)
        fun _ q => q.Strewn H :=
      fun n => .ofJob_done (.takeOutLru n) rfl (congrArg _ hp)
    exact (htakeOut _).bind fun surplus q hq => .pure hq

theorem balanced_traceKeeper (report : KeeperReport) : Balanced d (traceKeeper report) := by
  unfold traceKeeper
  split
  · exact balanced_remark _ fun _ => trivial
  · exact .pure ()

/-- A keeper cycle is balanced. -/
theorem Nests.runKeeper (hn : Nests d nested) : Balanced d (runKeeper nested) := by
  intro p
  apply Spec.read
  cases p.keeperStops with
  | true => exact .pure rfl
  | false =>
    refine (hn.balanced_callHook .maintenance p).bind fun _ q hq => ?_
    refine (spec_resize hq).bind fun plan r hr => ?_
    refine ((hn.destroy hr nofun).mono (fun _ _ h => h) fun _ _ => strewn_of_reservations).bind
      fun _ s hs => ?_
    refine (hn.fill (fun _ => id) hs).bind fun result t ht => ?_
    cases result with
    | error error => exact .pure ht
    | ok created => exact ((balanced_traceKeeper _).from ht).bind fun _ u hu => .pure hu

/-- A cycle of the count keeper ends without a panic. -/
theorem Nests.keeperCycle (hn : Nests d nested) : Contained d (keeperCycle nested) := by
  refine fun p => ((Balanced.attempt hn hn.runKeeper) p).bind fun ending q hq => ?_
  cases ending with
  | ok result => exact .pure hq
  | error panic => exact .pure hq

/-- Expired slots that leave the table are on the stack. -/
theorem spec_takeOutExpired (expired : Slot Nat → Bool) (hp : p.holdings = H) :
    Spec d (takeOutExpired expired) p
      (fun slots q => q.holdings = slots.map (.removed .expired) ++ H) fun _ q => q.Strewn H :=
  .ofJob_done (.takeOutExpired expired) rfl (congrArg _ hp)

/-- An eviction is balanced. -/
theorem Nests.evict (hn : Nests d nested) : Balanced d (evict nested) := by
  intro p
  apply Spec.read
  cases p.config.eviction.isEnabled with
  | false => exact .pure rfl
  | true =>
    refine .stepValue (.clock _ (Nat.le_add_right _ _)) ?_
    refine (spec_takeOutExpired _ rfl).bind fun expired q hq => ?_
    exact (hn.destroy hq nofun).bind fun _ r hr => .pure hr

/-- A parked slot is held until its check is over. -/
theorem spec_park (id : Nat) (p : Pool) :
    Spec d (park id) p (fun resource q => match resource with
        | some resource =>
          q.holdings = .slot .examination id resource :: p.holdings ∧ q.careStops = p.careStops
        | none => q.holdings = p.holdings)
      fun _ q => q.Strewn p.holdings := by
  intro hv
  unfold park
  rw [update_apply]
  cases ht : p.table.claimForCheck id with
  | none => exact ⟨d.refl p, rfl⟩
  | some found =>
    obtain ⟨s, t⟩ := found
    obtain ⟨s', -, hid, -, rfl, -⟩ := Table.claimForCheck_eq_some ht
    refine ⟨Hosts.step hv ⟨.park id _ t ht, rfl⟩, ?_, rfl⟩
    change Holding.slot .examination s'.id s'.resource :: p.holdings = _
    rw [hid]

/-- A parked slot is put back, or destroyed as soon as its resource is found unhealthy. The resource
remains on the stack. -/
theorem Nests.examine (hn : Nests d nested) {id resource : Nat}
    (hp : p.holdings = .slot .examination id resource :: H) (hc : p.careStops = false) :
    Spec d (examine nested id resource) p
      (fun _ q => q.holdings = .reference resource :: H) fun _ q => q.Strewn H := by
  have hmem : ∀ q : Pool, q.holdings = p.holdings → .slot .examination id resource ∈ q.holdings :=
    fun q hq => by simp [hq, hp]
  have hleft : ∀ q : Pool, q.holdings = p.holdings →
      Holding.reference resource :: q.holdings.erase (.slot .examination id resource) =
        .reference resource :: H := fun q hq => by
    rw [hq, hp, List.erase_cons_head]
  have hmarked : ∀ q : Pool, q.holdings = p.holdings →
      Spec d (pure (.ok .healthy) : PoolM (Except CheckError Verdict)) (reinstate id resource q).2
        (fun _ r => r.holdings = .reference resource :: H) fun _ r => r.Strewn H :=
    fun q hq => .pure (hleft q hq)
  refine hn.probe_bind ⟨id, hmem p rfl⟩ (fun _ => hc) (fun hs => ?_) fun result q hq _ => ?_
  · have hpasses : p.Passes (reinstate id resource p).2 := .unchecked id resource (hmem p rfl) hs
    exact .jump (n := pure (.ok .healthy)) rfl (Hosts.pass · hpasses) (hmarked p rfl)
  match result with
  | .ok .healthy =>
    have hpasses := Pool.Passes.checked id resource (hmem q hq)
    exact .jump (n := pure (.ok .healthy)) rfl (Hosts.pass · hpasses) (hmarked _ hq)
  | .ok (.unhealthy reason) =>
    let concluded := (conclude resource .care (.ok (.unhealthy reason)) q).2
    let taken := (takeOutBroken .examination id resource .unhealthy concluded).2
    refine .jump (q := taken) (n := do
      emit (.healthCheckFailed id reason)
      PoolM.destroy nested .unhealthy (concluded.table.invalidate id).1.toList
      pure (.ok (.unhealthy reason))) rfl (Hosts.weed · (.intro id resource reason (hmem q hq))) ?_
    have htook : TookOut concluded H id resource .unhealthy _ taken :=
      tookOut_takeOutBroken (hq.trans hp)
    have hnoted : TookOut concluded H id resource .unhealthy _
        (taken.note (.event (.healthCheckFailed id reason))) :=
      { htook with history := fun e he => List.mem_cons_of_mem _ (htook.history e he) }
    refine .step (.remark _ trivial) ?_
    have hdestroy := hnoted.destroy (d := d) hn fun _ => ⟨_, List.mem_cons_self, reason, rfl⟩
    exact hdestroy.bind fun _ r hr => .pure hr
  | .error error =>
    refine .step (.conclude resource .care _ ⟨id, hmem q hq⟩) ?_
    have hput : Spec d (unpark id resource error) (conclude resource .care (.error error) q).2
        (fun _ r => r.holdings = .reference resource :: H) fun _ r => r.Strewn H :=
      .ofJob_done (.unpark id resource error (hmem q hq) (.inr (.of_verdict rfl q.history))) rfl
        (hleft q hq)
    exact hput.bind fun _ r hr => .pure hr

/-- The checks of a cycle are balanced. -/
theorem Nests.examineAll (hn : Nests d nested) (fatal : Bool) (ids : List Nat) :
    Balanced d (examineAll nested fatal ids) := by
  induction ids with
  | nil => exact .pure []
  | cons id ids ih =>
    intro p
    apply Spec.read
    cases hc : p.careStops with
    | true => exact .pure rfl
    | false =>
      refine (spec_park id p).bind fun resource q hq => ?_
      cases resource with
      | none => exact ih.from hq
      | some resource =>
        refine (hn.examine hq.1 (hq.2.trans hc)).bind fun result r hr => ?_
        refine hn.letGo_reference hr fun s hs _ => ?_
        cases fatal && lacksVerdict result with
        | true => exact .pure hs
        | false => exact (ih.from hs).bind fun others t ht => .pure ht

/-- The replacements of a cycle are balanced. -/
theorem Nests.replenish (hn : Nests d nested) : Balanced d (replenish nested) := by
  intro p
  apply Spec.read
  cases p.delegates with
  | true => exact .step (.keeperSignal _ id) (.pure rfl)
  | false =>
    apply Spec.read
    exact (spec_reserve (fun _ => rfl) rfl).bind fun granted q hq => hn.fill (fun _ => id) hq.2

theorem balanced_traceCare (report : CareReport) : Balanced d (traceCare report) := by
  unfold traceCare
  split
  · exact balanced_remark _ fun _ => trivial
  · exact .pure ()

theorem balanced_concludeCare (results : List (Except CheckError Verdict)) (expired : Nat)
    (replacement : Except CreationError Nat) :
    Balanced d (concludeCare results expired replacement) := by
  cases replacement with
  | error error => exact .pure _
  | ok replaced =>
    refine (balanced_traceCare _).bind fun _ => ?_
    cases checkErrors results with
    | nil => exact .pure _
    | cons first others => exact .pure _

/-- A cycle of the health-care job from the checks on, with the number of slots evicted before. -/
def careFrom (nested : Op → PoolM Reply) (expired : Nat) :
    PoolM (Except CareFailure CareReport) := do
  let fatal ← read (·.config.careFailureFatal)
  let candidates ← read (·.table.idleIds)
  let results ← examineAll nested fatal candidates
  let removed := countUnhealthy results + expired
  let replacement ← if 0 < removed then replenish nested else pure (.ok 0)
  concludeCare results expired replacement

/-- A cycle evicts before it does anything else. -/
theorem runCare_eq_evict (hgo : p.careStops = false) (nested : Op → PoolM Reply) :
    runCare nested p = (evict nested >>= careFrom nested) p := by
  unfold runCare
  rw [bind_apply, read_apply, hgo]
  rfl

/-- A cycle of the health-care job is balanced from its checks on. -/
theorem Nests.careFrom (hn : Nests d nested) (expired : Nat) :
    Balanced d (careFrom nested expired) := by
  refine .read fun fatal => .read fun candidates => ?_
  refine (hn.examineAll fatal candidates).bind fun results => ?_
  have hconclude : ∀ replacement, Balanced d (concludeCare results expired replacement) :=
    balanced_concludeCare results expired
  dsimp only
  split
  · exact hn.replenish.bind hconclude
  · exact hconclude (.ok 0)

/-- A cycle of the health-care job is balanced. -/
theorem Nests.runCare (hn : Nests d nested) : Balanced d (runCare nested) := by
  refine .read fun stops => ?_
  cases stops with
  | true => exact .pure _
  | false => exact hn.evict.bind hn.careFrom

/-- A cycle of the health-care job ends without a panic. -/
theorem Nests.careCycle (hn : Nests d nested) : Contained d (careCycle nested) := by
  refine fun p => ((Balanced.attempt hn hn.runCare) p).bind fun ending q hq => ?_
  cases ending with
  | ok result => exact .pure hq
  | error panic => exact .pure hq

end LeasePool.PoolM
