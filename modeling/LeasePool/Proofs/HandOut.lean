import LeasePool.Proofs.Exclusive

/-!
# Exclusive hand-out

No resource is handed out to two callers, and a slot is given back only while it is in use. The
counters of acquisitions and releases differ by the leases that have begun and are not counted as
returned.
-/

namespace LeasePool

/-- Leases with different slots and resources, each of which is in use if it is in the table. -/
def Sight.IsExclusive (s : Sight) : Prop :=
  s.leases.Pairwise (fun l l' => l.slot ≠ l'.slot ∧ l.resource ≠ l'.resource) ∧
    ∀ l ∈ s.leases, ∀ slot ∈ s.table.slots, slot.id = l.slot →
      slot.state = .inUse ∧ slot.resource = l.resource

/-- What a running operation holds of an acquisition that is counted, and not yet as returned. -/
def Holding.isCounted : Holding → Bool
  | .slot .handOver _ _ | .slot .release _ _ => true
  | _ => false

namespace Pool

variable {p q : Pool} {h : Holding}

/-- What can be seen of an exclusive pool is exclusive. -/
theorem IsExclusive.sight (hp : p.IsExclusive) : p.sight.IsExclusive := by
  refine ⟨?_, fun l hl s hs heq => ?_⟩
  · have hpair := (List.pairwise_append.1 hp.pairwise_owners).1
    exact List.pairwise_map.1 hpair
  · have hmem : l.owner ∈ p.owners := List.mem_append_left _ (List.mem_map_of_mem hl)
    exact hp.of_owner hmem hs heq

/-- Whenever a slot is about to become idle because its lease has ended, it is in use. -/
theorem Occurs.freeing (h : q.Occurs) : ∀ r ∈ q.history, ∀ id resource,
    r.entry = .freeing id resource → ∀ s ∈ r.seen.table.slots, s.id = id → s.state = .inUse :=
  fun r hr id resource he => (h.arises.freeing r hr id resource he).2

/-- How many acquisitions have been counted whose releases have not. -/
def outstanding (p : Pool) : Nat := p.leases.length + p.holdings.countP Holding.isCounted

/-- The counters of acquisitions and releases account for what is outstanding, unless a panic of the
callback for acquisitions has left one of them out. -/
def IsTallied (p : Pool) : Prop :=
  ¬p.HasPanicked .acquired → p.tally.acquired = p.tally.released + .ofNat p.outstanding

/-- Erasing a holding that is not counted keeps the count. -/
theorem countP_erase_of_not {H : List Holding} (hc : h.isCounted = false) :
    (H.erase h).countP Holding.isCounted = H.countP Holding.isCounted := by
  by_cases hh : h ∈ H
  · have hperm := (List.perm_cons_erase hh).countP_eq Holding.isCounted
    rw [List.countP_cons_of_neg (by simp [hc])] at hperm
    exact hperm.symm
  · rw [List.erase_of_not_mem hh]

/-- Erasing a holding that is counted takes one from the count. -/
theorem countP_erase_add_one {H : List Holding} (hh : h ∈ H) (hc : h.isCounted = true) :
    (H.erase h).countP Holding.isCounted + 1 = H.countP Holding.isCounted := by
  have hperm := (List.perm_cons_erase hh).countP_eq Holding.isCounted
  rw [List.countP_cons_of_pos hc] at hperm
  exact hperm.symm

/-- Further holdings that are not counted keep the count. -/
theorem countP_append_of_not {K : List Holding} (hK : ∀ h ∈ K, h.isCounted = false)
    (H : List Holding) : (K ++ H).countP Holding.isCounted = H.countP Holding.isCounted := by
  rw [List.countP_append, List.countP_eq_zero.2 fun h hh => by simp [hK h hh], Nat.zero_add]

/-- Slots that have left the table, and handles, are not outstanding. -/
theorem countP_removed (reason : DestroyReason) (slots : List (Slot Nat)) (H : List Holding) :
    (slots.map (Holding.removed reason) ++ H).countP Holding.isCounted =
      H.countP Holding.isCounted := by
  refine countP_append_of_not (fun h hh => ?_) H
  obtain ⟨s, -, rfl⟩ := List.mem_map.1 hh
  rfl

/-- Handles are not counted. -/
theorem countP_handles (ids : List Nat) (H : List Holding) :
    (ids.map Holding.handle ++ H).countP Holding.isCounted = H.countP Holding.isCounted := by
  refine countP_append_of_not (fun h hh => ?_) H
  obtain ⟨id, -, rfl⟩ := List.mem_map.1 hh
  rfl

/-- The account stays right if neither counter nor what is outstanding changes. -/
theorem IsTallied.of_eq (hp : p.IsTallied) (h : p.Step q)
    (ha : q.tally.acquired = p.tally.acquired) (hr : q.tally.released = p.tally.released)
    (ho : q.outstanding = p.outstanding) : q.IsTallied := by
  intro hno
  rw [ha, hr, ho]
  exact hp fun hl => hno (hl.step h)

/-- The account stays right if a release is counted and no longer outstanding. -/
theorem IsTallied.of_release (hp : p.IsTallied) (h : p.Step q)
    (ha : q.tally.acquired = p.tally.acquired) (hr : q.tally.released = p.tally.released + 1)
    (ho : q.outstanding + 1 = p.outstanding) : q.IsTallied := by
  intro hno
  rw [ha, hr, hp fun hl => hno (hl.step h), ← ho, UInt64.ofNat_add, UInt64.add_assoc,
    UInt64.add_comm 1]
  rfl

/-- Every step keeps the account of acquisitions and releases right. -/
theorem IsTallied.step (hp : p.IsTallied) (h : p.Step q) : q.IsTallied := by
  have hstep := h
  have hkeep : ∀ {n m : Nat}, n = m → p.leases.length + n = p.leases.length + m := congrArg _
  cases h with
  | count c n hc => cases c <;> first | exact hc.elim | exact hp.of_eq hstep rfl rfl rfl
  | conclude resource checker result =>
    refine hp.of_eq hstep ?_ ?_ rfl <;>
    · rcases result with _ | (_ | _) <;> rfl
  | commit resource state origin hs =>
    refine hp.of_eq hstep rfl rfl (hkeep ?_)
    have hleft : ((p.holdings.erase (.product resource)).erase .reservation).countP
        Holding.isCounted = p.holdings.countP Holding.isCounted :=
      (countP_erase_of_not rfl).trans (countP_erase_of_not rfl)
    rcases hs with rfl | rfl <;> exact hleft
  | reserve origin wanted =>
    refine hp.of_eq hstep rfl rfl (hkeep ?_)
    change (List.replicate _ Holding.reservation ++ p.holdings).countP Holding.isCounted = _
    rw [List.countP_append, List.countP_replicate]
    exact Nat.zero_add _
  | unreserve => exact hp.of_eq hstep rfl rfl (hkeep (countP_erase_of_not rfl))
  | countAcquired id resource h =>
    intro hno
    have hcount : (PoolM.countAcquired id resource p).2.outstanding = p.outstanding + 1 :=
      hkeep ((List.countP_cons_of_pos rfl).trans (congrArg (· + 1) (countP_erase_of_not rfl)))
    rw [hcount, UInt64.ofNat_add, ← UInt64.add_assoc]
    exact congrArg (· + 1) (hp fun hl => hno (hl.step hstep))
  | beginLease id resource h =>
    apply hp.of_eq hstep rfl rfl
    have hcount := countP_erase_add_one h rfl
    change p.leases.length + 1 + (p.holdings.erase (.slot .handOver id resource)).countP _ =
      p.leases.length + p.holdings.countP _
    omega
  | nameHandle =>
    exact hp.of_eq hstep rfl rfl (hkeep ((countP_handles _ _).trans (countP_erase_of_not rfl)))
  | unnameHandle => exact hp.of_eq hstep rfl rfl (hkeep (countP_handles _ _))
  | letGoHandle => exact hp.of_eq hstep rfl rfl (hkeep (countP_erase_of_not rfl))
  | endLease l h =>
    apply hp.of_eq hstep rfl rfl
    have hpos := List.length_pos_of_mem h
    have hhandle : (p.holdings.erase (.handle l.id)).countP Holding.isCounted =
        p.holdings.countP Holding.isCounted := countP_erase_of_not rfl
    change (p.leases.erase l).length +
      (Holding.slot .release l.slot l.resource :: p.holdings.erase (.handle l.id)).countP _ =
        p.leases.length + p.holdings.countP _
    rw [List.length_erase_of_mem h, List.countP_cons_of_pos rfl, hhandle]
    omega
  | invalidateLease id =>
    refine hp.of_eq hstep rfl rfl (congrArg (· + p.holdings.countP _) ?_)
    exact List.length_map _
  | giveBack lease h =>
    exact hp.of_release hstep rfl rfl (hkeep (countP_erase_add_one h rfl))
  | giveUp lease reason h =>
    apply hp.of_release hstep rfl rfl
    have hcount : (PoolM.giveUp lease reason p).2.outstanding = p.leases.length +
        (p.holdings.erase (.slot .release lease.slot lease.resource)).countP Holding.isCounted :=
      hkeep (countP_removed _ _ _)
    rw [hcount, Nat.add_assoc, countP_erase_add_one h rfl]
    rfl
  | reinstate | unpark => exact hp.of_eq hstep rfl rfl (hkeep (countP_erase_of_not rfl))
  | takeOutBroken tenure id resource reason ht h =>
    have hc : (Holding.slot tenure id resource).isCounted = false := by
      rcases ht with rfl | ⟨rfl, -⟩ <;> rfl
    exact hp.of_eq hstep rfl rfl (hkeep ((countP_removed _ _ _).trans (countP_erase_of_not hc)))
  | takeOutLru | takeOutExpired | drain =>
    exact hp.of_eq hstep rfl rfl (hkeep (countP_removed _ _ _))
  | destroyOne =>
    rw [bury_eq] at hstep ⊢
    exact hp.of_eq hstep rfl rfl (hkeep (countP_erase_of_not rfl))
  | letGo h resource hk =>
    rw [discard_eq] at hstep ⊢
    refine hp.of_eq hstep rfl rfl (hkeep (countP_erase_of_not ?_))
    rcases hk with rfl | rfl <;> rfl
  | lose h rest resource hh hr hl =>
    rw [settle_eq] at hstep ⊢
    match h, hl with
    | .slot .handOver _ _, hl => exact fun hno => absurd (HasPanicked.step hl hstep) hno
    | .removed _ _, _ | .reference _, _ =>
      refine hp.of_eq hstep rfl rfl (hkeep ?_)
      rw [hh]
      rfl
    | .reservation, _ => cases hr
  | _ => exact hp.of_eq hstep rfl rfl rfl

/-- A new pool has counted nothing. -/
theorem IsTallied.of_isNew (hp : p.IsNew) : p.IsTallied := by
  obtain ⟨⟩ := hp
  exact fun _ => rfl

/-- The counters account for what is outstanding after each operation of a run. -/
theorem Occurs.isTallied (h : q.Occurs) : q.IsTallied :=
  h.invariant (fun _ => IsTallied.of_isNew) fun _ _ => IsTallied.step

/-- Between operations the leases are the only owners. -/
theorem Reachable.owners_eq (h : p.Reachable) : p.owners = p.leases.map Lease.owner := by
  rw [owners, h.idle.2]
  exact List.append_nil _

/-- At every moment of a run that user code or a caller can look at, two leases have different slots
and different resources, and the slot of a lease is in use and has its resource, if it is in the
table. So a slot that is given back is in use. Unless the callback for acquisitions has panicked,
between operations each slot in use has exactly one lease, and the counters of acquisitions and
releases differ by the number of leases. -/
theorem Occurs.exclusive_handOut (h : q.Occurs) :
    (∀ s ∈ q.sight :: q.history.map (·.seen),
      s.leases.Pairwise (fun l l' => l.slot ≠ l'.slot ∧ l.resource ≠ l'.resource) ∧
      ∀ l ∈ s.leases, ∀ slot ∈ s.table.slots, slot.id = l.slot →
        slot.state = .inUse ∧ slot.resource = l.resource) ∧
    (∀ r ∈ q.history, ∀ id resource, r.entry = .freeing id resource →
      ∀ slot ∈ r.seen.table.slots, slot.id = id → slot.state = .inUse) ∧
    (q.Reachable → ¬q.HasPanicked .acquired →
      (∀ slot ∈ q.table.slots, slot.state = .inUse → ∃! l, l ∈ q.leases ∧ l.slot = slot.id) ∧
      q.tally.acquired - q.tally.released = .ofNat q.leases.length) := by
  refine ⟨fun s hs => ?_, fun r hr id resource he slot hs heq => ?_, fun hq hno => ⟨?_, ?_⟩⟩
  · obtain ⟨hnow, hpast⟩ := h.seen (S := fun _ s => s.IsExclusive) (fun _ => IsExclusive.of_isNew)
      (fun _ _ => IsExclusive.step) fun _ => IsExclusive.sight
    rcases List.mem_cons.1 hs with rfl | hs
    · exact hnow
    · obtain ⟨r, hr, rfl⟩ := List.mem_map.1 hs
      exact hpast r hr
  · exact h.freeing r hr id resource he slot hs heq
  · intro slot hs hstate
    have hbusy := h.isExclusive.busy hno slot hs (by simp [hstate])
    rw [hq.owners_eq] at hbusy
    obtain ⟨o, ho, heq⟩ := hbusy
    obtain ⟨l, hl, rfl⟩ := List.mem_map.1 ho
    refine ⟨l, ⟨hl, heq⟩, fun l' ⟨hl', heq'⟩ => ?_⟩
    have hnodup := h.isExclusive.nodup
    rw [hq.owners_eq, List.map_map] at hnodup
    exact List.inj_on_of_nodup_map hnodup hl' hl (heq'.trans heq.symm)
  · have hcount : q.outstanding = q.leases.length := by
      rw [outstanding, hq.idle.2]
      rfl
    rw [h.isTallied hno, hcount, UInt64.add_comm, UInt64.add_sub_cancel]

/-- Of two leases one gets a second handle and loses its first one. It keeps its slot, so the leases
have different slots and resources at every moment, and each slot in use has one lease. -/
theorem exclusive_handOut_shared :
    let first := (PoolM.run 2 (.acquire "a") (new "pool" {} .plain)).2
    let second := (PoolM.run 2 (.acquire "b") first).2
    let shared := (PoolM.run 2 (.share "a" "c") second).2
    let q := (PoolM.run 2 (.drop "a") shared).2
    q.handles = [("c", 0), ("b", 1)] ∧ q.leases.map (·.slot) = [2, 1] ∧
      (∀ s ∈ q.sight :: q.history.map (·.seen),
        s.leases.Pairwise fun l l' => l.slot ≠ l'.slot ∧ l.resource ≠ l'.resource) ∧
      (∀ slot ∈ q.table.slots, slot.state = .inUse → ∃! l, l ∈ q.leases ∧ l.slot = slot.id) ∧
      q.tally.acquired - q.tally.released = 2 := by
  intro first second shared q
  have hstart : Reachable (new "pool" {} .plain) :=
    reachable_new "pool" {} (UserCode.plain_runs _) (by decide)
  have hfirst : first.Reachable :=
    hstart.next (.of_installs_eq_nil rfl rfl) (by decide +kernel)
  have hsecond : second.Reachable :=
    hfirst.next (.of_installs_eq_nil rfl rfl) (by decide +kernel)
  have hshared : shared.Reachable :=
    hsecond.next (.of_installs_eq_nil rfl rfl) (by decide +kernel)
  have hdrop : Op.IsPublic (.drop "a") := .of_installs_eq_nil rfl rfl
  have hreach : q.Reachable := hshared.next hdrop (by decide +kernel)
  have hoccurs : q.Occurs := .intro hshared hdrop 2
  obtain ⟨hseen, -, hleases⟩ := hoccurs.exclusive_handOut
  obtain ⟨hslots, hcount⟩ := hleases hreach (by decide +kernel)
  refine ⟨by decide +kernel, by decide +kernel, fun s hs => (hseen s hs).1, hslots, ?_⟩
  rw [hcount]
  decide +kernel

end Pool

end LeasePool
