import LeasePool.Proofs.Reservations

/-!
# No transient state is leaked

A reservation is counted in the table for as long as a running operation or a caller holds it, and a
slot is parked for as long as a running operation examines it. An operation that has ended holds
nothing, so neither is left behind, however it has ended.
-/

namespace LeasePool

/-- A slot that is put back is not parked any more. -/
theorem PoolM.state_unparked_ne_pending (s : Slot Nat) : (unparked s).state ≠ .pending := by
  rw [state_unparked]
  split
  · nofun
  · next h => exact h

namespace Pool

variable {p q : Pool}

/-- A running operation examines each slot that is parked. -/
def IsParked (p : Pool) : Prop :=
  ∀ s ∈ p.table.slots, s.state = .pending → .slot .examination s.id s.resource ∈ p.holdings

/-- Slots stay parked by someone if none is parked anew and no examination of theirs has ended. -/
theorem IsParked.of_slots (hp : p.IsParked)
    (hs : ∀ s ∈ q.table.slots, s.state = .pending → s ∈ p.table.slots ∧
      (.slot .examination s.id s.resource ∈ p.holdings →
        .slot .examination s.id s.resource ∈ q.holdings)) : q.IsParked := by
  intro s hmem hstate
  obtain ⟨hold, hkeep⟩ := hs s hmem hstate
  exact hkeep (hp s hold hstate)

/-- Slots stay parked by someone if only what is no examination comes and goes. -/
theorem IsParked.of_holdings (hp : p.IsParked) (hs : q.table.slots = p.table.slots)
    (hh : ∀ id r, .slot .examination id r ∈ p.holdings → .slot .examination id r ∈ q.holdings) :
    q.IsParked :=
  hp.of_slots fun _ hmem _ => ⟨hs ▸ hmem, hh _ _⟩

/-- A slot is changed so that it is not parked afterwards. -/
theorem IsParked.modify (hp : p.IsParked) {id : Nat} {change : Slot Nat → Slot Nat}
    (ht : q.table = p.table.modify id change) (hc : ∀ s, (change s).state ≠ .pending)
    (hh : ∀ i r, i ≠ id → .slot .examination i r ∈ p.holdings →
      .slot .examination i r ∈ q.holdings) : q.IsParked := by
  refine hp.of_slots fun s hmem hstate => ?_
  rw [ht] at hmem
  rcases Table.mem_modify_iff_or hmem with ⟨hmem, hid⟩ | ⟨s', -, -, rfl⟩
  · exact ⟨hmem, hh _ _ hid⟩
  · exact absurd hstate (hc s')

/-- Slots leave the table. -/
theorem IsParked.prune (hp : p.IsParked) {taken : List (Slot Nat)}
    (ht : p.table.Prunes q.table taken)
    (hh : ∀ s ∈ q.table.slots, .slot .examination s.id s.resource ∈ p.holdings →
      .slot .examination s.id s.resource ∈ q.holdings) : q.IsParked :=
  hp.of_slots fun s hmem _ => ⟨ht.mem hmem, hh s hmem⟩

theorem mem_unhold {h k : Holding} (hk : k ∈ p.holdings) (hne : k ≠ h) :
    k ∈ (p.unhold h).holdings :=
  (List.mem_erase_of_ne hne).2 hk

theorem mem_exchange {h other k : Holding} (hk : k ∈ p.holdings) (hne : k ≠ h) :
    k ∈ (p.exchange h other).holdings :=
  List.mem_cons_of_mem _ (mem_unhold hk hne)

/-- A slot that its owner takes out as broken is not in the table any more. -/
theorem IsParked.takeOutBroken (hp : p.IsParked) (hsound : p.table.IsSound) (tenure : Tenure)
    (id resource : Nat) (reason : DestroyReason) :
    (PoolM.takeOutBroken tenure id resource reason p).2.IsParked := by
  refine hp.prune (Table.prunes_invalidate hsound.nodup id) fun s hs hold => ?_
  have hgone := (Table.slots_invalidate hsound.nodup id).mem_iff.1 hs
  have hid : s.id ≠ id := by simpa using (List.mem_filter.1 hgone).2
  refine List.mem_append_right _ (mem_exchange hold fun he => hid ?_)
  cases he
  rfl

/-- Every step leaves each parked slot with someone who examines it. -/
theorem IsParked.step (hp : p.IsParked) (hsound : p.table.IsSound) (h : p.Step q) :
    q.IsParked := by
  cases h with
  | claim s t h =>
    obtain ⟨s', -, -, -, rfl⟩ := Table.claimIdle_eq_some h
    exact hp.modify rfl (fun _ => nofun) fun _ _ _ => List.mem_cons_of_mem _
  | park id s t h =>
    obtain ⟨s', hs', rfl, hidle, rfl, rfl⟩ := Table.claimForCheck_eq_some h
    intro s hs hstate
    rcases Table.mem_modify_iff_or hs with ⟨hs, -⟩ | ⟨other, hother, hid, rfl⟩
    · exact List.mem_cons_of_mem _ (hp s hs hstate)
    · rw [hsound.eq_of_id hother hs' hid]
      exact List.mem_cons_self
  | confirm id resource =>
    intro s hs hstate
    rcases Table.mem_modify_iff_or hs with ⟨hs, -⟩ | ⟨s', hs', -, rfl⟩
    · exact hp s hs hstate
    · exact hp s' hs' hstate
  | giveBack =>
    exact hp.modify rfl (fun _ => nofun) fun _ _ _ hk => mem_exchange hk nofun
  | reinstate id resource =>
    refine hp.modify rfl (fun s => ?_) fun i r hne hk => mem_exchange hk fun he => hne ?_
    · rw [PoolM.state_passed]
      exact PoolM.state_unparked_ne_pending s
    · cases he
      rfl
  | unpark id resource =>
    refine hp.modify rfl PoolM.state_unparked_ne_pending
      fun i r hne hk => mem_exchange hk fun he => hne ?_
    cases he
    rfl
  | giveUp lease reason => exact hp.takeOutBroken hsound .release lease.slot lease.resource reason
  | takeOutBroken tenure id resource reason =>
    exact hp.takeOutBroken hsound tenure id resource reason
  | takeOutLru n =>
    exact hp.prune (Table.prunes_removeIdleLru n _) fun _ _ => List.mem_append_right _
  | takeOutExpired f =>
    exact hp.prune (Table.prunes_removeIdleWhere f _) fun _ _ => List.mem_append_right _
  | drain => exact hp.prune (Table.prunes_drain _) fun _ _ => List.mem_append_right _
  | commit resource state origin hs =>
    intro s hs' hstate
    rcases Table.mem_or_new_of_mem_commit hs' with hs' | ⟨-, -, hnew⟩
    · have hleft : .slot .examination s.id s.resource ∈
          ((p.unhold (.product resource)).unhold .reservation).holdings :=
        mem_unhold (mem_unhold (hp s hs' hstate) nofun) nofun
      exact List.mem_append_right _ hleft
    · rcases hs with rfl | rfl <;> cases hnew.symm.trans hstate
  | make | cloneHandle | refer => exact hp.of_holdings rfl fun _ _ => List.mem_cons_of_mem _
  | reserve | unnameHandle => exact hp.of_holdings rfl fun _ _ => List.mem_append_right _
  | nameHandle =>
    exact hp.of_holdings rfl fun _ _ hk => List.mem_append_right _ (mem_unhold hk nofun)
  | unreserve | letGoHandle => exact hp.of_holdings rfl fun _ _ hk => mem_unhold hk nofun
  | countAcquired | beginLease => exact hp.of_holdings rfl fun _ _ hk => mem_exchange hk nofun
  | endLease => exact hp.of_holdings rfl fun _ _ hk => List.mem_cons_of_mem _ (mem_unhold hk nofun)
  | destroyOne =>
    rw [bury_eq]
    exact hp.of_holdings rfl fun _ _ hk => mem_unhold hk nofun
  | letGo h resource hk =>
    rw [discard_eq]
    refine hp.of_holdings rfl fun _ _ hmem => mem_unhold hmem ?_
    rcases hk with rfl | rfl <;> nofun
  | lose h rest resource hh _ hl =>
    rw [settle_eq]
    refine hp.of_holdings rfl fun id r hmem => ?_
    rw [hh] at hmem
    rcases List.mem_cons.1 hmem with rfl | hmem
    · exact hl.elim
    · exact hmem
  | _ => exact hp

/-- A new pool has nothing parked. -/
theorem IsParked.of_isNew (hp : p.IsNew) : p.IsParked := by
  obtain ⟨⟩ := hp
  exact fun _ hs => absurd hs List.not_mem_nil

/-- A running operation examines each parked slot, at any moment of a run. -/
theorem Arises.isParked (h : p.Arises) : p.IsParked := by
  have hboth := h.invariant (I := fun p => p.Fits ∧ p.IsParked)
    (fun _ hp => ⟨.of_isNew hp, .of_isNew hp⟩)
    fun _ _ ⟨hfits, hparked⟩ h => ⟨hfits.step h, hparked.step hfits.sound h⟩
  exact hboth.2

/-- What callers do with reservations leaves each parked slot with someone who examines it. -/
theorem CallerStep.isParked (hp : p.IsParked) (hsound : p.table.IsSound) (h : p.CallerStep q) :
    q.IsParked := by
  cases h with
  | step h => exact hp.step hsound h
  | factory => exact hp
  | take | giveBack => exact hp.of_holdings rfl fun _ _ => id
  | handOver => exact hp.of_holdings rfl fun _ _ => List.mem_cons_of_mem _
  | abandon =>
    rw [discard_eq]
    exact hp.of_holdings rfl fun _ _ hk => mem_unhold hk nofun

/-- At every moment of a run that user code or a caller can look at, the capacity reserved is that
of the reservations held by running operations and by callers, none was ever given back that was not
counted, and each parked slot is being examined. Between operations only what callers hold is
reserved, and no slot is parked. -/
theorem OccursReserving.no_transient_state (h : q.OccursReserving) :
    (∀ s ∈ q.sight :: q.history.map (·.seen),
      s.table.creating = s.holdings.count .reservation + s.reserved ∧ s.table.overdrawn = 0 ∧
      ∀ slot ∈ s.table.slots, slot.state = .pending →
        .slot .examination slot.id slot.resource ∈ s.holdings) ∧
    (q.ReachableReserving →
      q.table.creating = q.reserved ∧ ∀ slot ∈ q.table.slots, slot.state ≠ .pending) := by
  have hseen := h.forall_seen (I := fun p => p.Fits p.reserved ∧ p.IsParked)
    (S := fun s => s.table.creating = s.holdings.count .reservation + s.reserved ∧
      s.table.overdrawn = 0 ∧ ∀ slot ∈ s.table.slots, slot.state = .pending →
        .slot .examination slot.id slot.resource ∈ s.holdings)
    (fun _ hp => ⟨hp.fits, .of_isNew hp⟩)
    (fun _ _ ⟨hfits, hparked⟩ hs => ⟨hs.fits hfits, hs.isParked hparked hfits.sound⟩)
    fun _ ⟨hfits, hparked⟩ => ⟨hfits.creating, hfits.overdrawn, hparked⟩
  refine ⟨hseen, fun hq => ?_⟩
  obtain ⟨hcreating, -, hpending⟩ := hseen q.sight List.mem_cons_self
  rw [sight, hq.idle.2] at hcreating hpending
  refine ⟨hcreating.trans (Nat.zero_add _), fun slot hs hstate => ?_⟩
  exact List.not_mem_nil (hpending slot hs hstate)

/-- A caller holds a reservation. The second factory call of a keeper cycle runs a care cycle and
panics, and the check of the first resource drains the pool and panics. Two reservations and a
parked slot could be seen meanwhile, and nothing is left of them but the caller's reservation. -/
theorem no_transient_state_check_drains :
    let user : UserCode :=
      { UserCode.plain with
        factory := ⟨[⟨[], .success⟩], ⟨[.care], .panic (.ofText "boom")⟩⟩
        checkStyle := some .direct
        checkDefault := ⟨[], ⟨[.drain], .panic (.ofText "boom")⟩⟩ }
    let reserved := (PoolM.run 1 (.reserve 1) (new "pool" { desiredCount := 3 } user)).2
    let q := (PoolM.run 4 .keeper reserved).2
    (∃ r ∈ q.history, r.seen.table.creating = 2 ∧ r.seen.table.count .pending = 1) ∧
      q.reserved = 1 ∧ q.table.creating = q.reserved ∧
      ∀ slot ∈ q.table.slots, slot.state ≠ .pending := by
  intro user reserved q
  have huser : user.IsPublic :=
    { UserCode.plain_runs _ with
      factory := List.forall_mem_singleton.2 (.of_installs_eq_nil rfl rfl)
      checkDefault := List.forall_mem_singleton.2 (.of_installs_eq_nil rfl rfl) }
  have hstart : (new "pool" { desiredCount := 3 } user).ReachableReserving :=
    .create (.intro "pool" _ user false {} huser (by decide))
  have hreserved : reserved.ReachableReserving :=
    hstart.next (.inr (.take 1)) (by decide +kernel)
  have hkeeper : Op.IsPublic .keeper := .of_installs_eq_nil rfl rfl
  have hq : q.ReachableReserving := hreserved.next (.inl hkeeper) (by decide +kernel)
  have hoccurs : q.OccursReserving := .intro hreserved (.inl hkeeper) 4
  exact ⟨by decide +kernel, by decide +kernel, hoccurs.no_transient_state.2 hq⟩

end Pool

end LeasePool
