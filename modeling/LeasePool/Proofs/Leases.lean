import LeasePool.Proofs.Handles
import LeasePool.Proofs.Exclusive

/-!
# Leases while they last

A lease lasts for as long as it has a handle, whatever else happens in the pool. Meanwhile its slot
stays as it is, unless a drain takes it out of the table, and the lease is invalidated only on
purpose, and for good. A lease that has ended does not come back.
-/

namespace LeasePool

/-- A slot with another number stays when a slot is changed. -/
theorem Table.mem_modify_of_ne {ρ : Type} {t : Table ρ} {s : Slot ρ} (hs : s ∈ t.slots) {id : Nat}
    (hne : id ≠ s.id) (change : Slot ρ → Slot ρ) : s ∈ (t.modify id change).slots :=
  mem_modify.2 ⟨s, hs, (if_neg hne.symm).symm⟩

namespace Pool

variable {p q r : Pool} {l : Lease} {s : Slot Nat}

/-- A lease has ended with its last handle, and the running operation owns its slot. -/
def ended (l : Lease) (p : Pool) : Pool :=
  { p.unhold (.handle l.id) with leases := p.leases.erase l }.hold
    (.slot .release l.slot l.resource)

/-- A lease stays as it is in a step, or it is invalidated, or it ends with its last handle. -/
theorem Step.lease_cases (h : p.Step q) (hl : l ∈ p.leases) :
    l ∈ q.leases ∨ q = (PoolM.invalidateLease l.id p).2 ∨
      q = p.ended l ∧ .handle l.id ∈ p.holdings ∧ ¬(p.unhold (.handle l.id)).HasHandle l.id := by
  cases h with
  | invalidateLease id =>
    by_cases hid : l.id = id
    · exact .inr (.inl (hid ▸ rfl))
    · exact .inl (List.mem_map.2 ⟨l, hl, if_neg hid⟩)
  | beginLease => exact .inl (List.mem_cons_of_mem _ hl)
  | endLease other _ hh ho =>
    by_cases heq : l = other
    · subst heq
      exact .inr (.inr ⟨rfl, hh, ho⟩)
    · exact .inl ((List.mem_erase_of_ne heq).2 hl)
  | destroyOne =>
    rw [bury_eq]
    exact .inl hl
  | letGo =>
    rw [discard_eq]
    exact .inl hl
  | lose =>
    rw [settle_eq]
    exact .inl hl
  | _ => exact .inl hl

/-- A lease after a step has gone on from before, or has begun with the next number. -/
theorem Step.lease_origin (h : p.Step q) (hl : l ∈ q.leases) :
    (∃ l' ∈ p.leases, l'.id = l.id) ∨ l.id = p.nextLease := by
  cases h with
  | invalidateLease id =>
    obtain ⟨l', hl', rfl⟩ := List.mem_map.1 hl
    refine .inl ⟨l', hl', ?_⟩
    split <;> rfl
  | beginLease =>
    rcases List.mem_cons.1 hl with rfl | hl
    · exact .inr rfl
    · exact .inl ⟨l, hl, rfl⟩
  | endLease => exact .inl ⟨l, List.mem_of_mem_erase hl, rfl⟩
  | destroyOne =>
    rw [bury_eq] at hl
    exact .inl ⟨l, hl, rfl⟩
  | letGo =>
    rw [discard_eq] at hl
    exact .inl ⟨l, hl, rfl⟩
  | lose =>
    rw [settle_eq] at hl
    exact .inl ⟨l, hl, rfl⟩
  | _ => exact .inl ⟨l, hl, rfl⟩

/-- Numbers of leases are not given out again. -/
theorem Step.nextLease_le (h : p.Step q) : p.nextLease ≤ q.nextLease := by
  cases h with
  | beginLease => exact Nat.le_succ _
  | destroyOne => exact Nat.le_of_eq (by rw [bury_eq]; rfl)
  | letGo => exact Nat.le_of_eq (by rw [discard_eq]; rfl)
  | lose => exact Nat.le_of_eq (by rw [settle_eq])
  | _ => exact Nat.le_refl _

/-- Numbers of leases are given out upwards. -/
theorem Steps.nextLease_le (h : p.Steps q) : p.nextLease ≤ q.nextLease := by
  induction h with
  | refl => exact Nat.le_refl _
  | tail _ h ih => exact Nat.le_trans ih h.nextLease_le

/-- A lease whose number was given out long ago has been there ever since. -/
theorem Steps.exists_lease (h : p.Steps q) {id : Nat} (hid : id < p.nextLease)
    (hq : ∃ l ∈ q.leases, l.id = id) : ∃ l ∈ p.leases, l.id = id := by
  induction h with
  | refl => exact hq
  | @tail m q hm h ih =>
    obtain ⟨l, hl, rfl⟩ := hq
    refine ih ((h.lease_origin hl).resolve_right fun heq => ?_)
    exact absurd (heq ▸ hid) (Nat.not_lt.2 (Steps.nextLease_le hm))

/-- A running operation does not own the slot of a lease. -/
theorem IsExclusive.ne_slot (hp : p.IsExclusive) (hl : l ∈ p.leases) {tenure : Tenure}
    {id resource : Nat} (hh : .slot tenure id resource ∈ p.holdings) : id ≠ l.slot := by
  have hnodup := hp.nodup
  rw [owners, List.map_append] at hnodup
  have hlease : l.slot ∈ (p.leases.map Lease.owner).map (·.slot) :=
    List.mem_map_of_mem (List.mem_map_of_mem hl)
  have hheld : id ∈ (p.holdings.filterMap Holding.owner?).map (·.slot) :=
    List.mem_map.2 ⟨_, List.mem_filterMap.2 ⟨_, hh, rfl⟩, rfl⟩
  exact ((List.nodup_append.1 hnodup).2.2 l.slot hlease id hheld).symm

/-- A slot with another number stays when a broken one is taken out. -/
theorem IsExclusive.mem_takeOutBroken (hp : p.IsExclusive) (hs : s ∈ p.table.slots) {id : Nat}
    (hne : id ≠ s.id) : s ∈ (p.table.invalidate id).2.slots :=
  (Table.slots_invalidate hp.sound.nodup id).mem_iff.2
    (List.mem_filter.2 ⟨hs, bne_iff_ne.2 hne.symm⟩)

/-- A step leaves the slot of a lease as it is, or it is a drain. -/
theorem Step.leased_slot (hp : p.IsExclusive) (h : p.Step q) (hl : l ∈ p.leases)
    (hs : s ∈ p.table.slots) (hid : s.id = l.slot) :
    s ∈ q.table.slots ∨ q = (PoolM.takeOut .shutdown (·.drain) p).2 := by
  have hstate : s.state = .inUse := (hp.of_owner (mem_owners_of_lease hl) hs hid).1
  have hbusy : s.state ≠ .idle := by simp [hstate]
  have hother : ∀ {tenure id resource}, .slot tenure id resource ∈ p.holdings → id ≠ s.id :=
    fun hh => hid ▸ hp.ne_slot hl hh
  have hidle : ∀ {s'}, s' ∈ p.table.slots → s'.state = .idle → s'.id ≠ s.id := by
    intro s' hs' hidle heq
    rw [hp.sound.eq_of_id hs' hs heq] at hidle
    exact hbusy hidle
  cases h with
  | drain => exact .inr rfl
  | commit => exact .inl (List.mem_append_left _ hs)
  | claim s' t h =>
    obtain ⟨s', hs', hfree, rfl, rfl⟩ := Table.claimIdle_eq_some h
    exact .inl (Table.mem_modify_of_ne hs (hidle hs' hfree) _)
  | park id s' t h =>
    obtain ⟨s', hs', rfl, hfree, rfl, rfl⟩ := Table.claimForCheck_eq_some h
    exact .inl (Table.mem_modify_of_ne hs (hidle hs' hfree) _)
  | confirm id resource h => exact .inl (Table.mem_modify_of_ne hs (hother h) _)
  | giveBack lease h => exact .inl (Table.mem_modify_of_ne hs (hother h) _)
  | reinstate id resource h => exact .inl (Table.mem_modify_of_ne hs (hother h) _)
  | unpark id resource error h => exact .inl (Table.mem_modify_of_ne hs (hother h) _)
  | giveUp lease reason h => exact .inl (hp.mem_takeOutBroken hs (hother h))
  | takeOutBroken tenure id resource reason _ h => exact .inl (hp.mem_takeOutBroken hs (hother h))
  | takeOutLru n => exact .inl (hp.sound.mem_removeIdleLru hs hbusy n)
  | takeOutExpired f => exact .inl (Table.mem_removeIdleWhere hs hbusy f)
  | destroyOne =>
    rw [bury_eq]
    exact .inl hs
  | letGo =>
    rw [discard_eq]
    exact .inl hs
  | lose =>
    rw [settle_eq]
    exact .inl hs
  | _ => exact .inl hs

/-- A lease goes on, with the same slot and the same resource. It stays invalidated, and becomes so
only on purpose. Its slot is as it was, unless a drain has taken it out of the table. -/
structure GoesOn (l : Lease) (p q : Pool) (l' : Lease) : Prop where
  mem : l' ∈ q.leases
  id : l'.id = l.id
  slot : l'.slot = l.slot
  resource : l'.resource = l.resource
  stays : l.invalidated = true → l'.invalidated = true
  purpose : l'.invalidated = true → l.invalidated = true ∨
    ∃ m, p.Steps m ∧ (PoolM.invalidateLease l.id m).2.Steps q
  unchanged : ∀ s ∈ p.table.slots, s.id = l.slot → s ∈ q.table.slots ∨
    ∃ m, p.Steps m ∧ s ∈ m.table.slots ∧ (PoolM.takeOut .shutdown (·.drain) m).2.Steps q

namespace GoesOn

variable {m : Pool} {l' : Lease}

/-- A lease goes on without anything happening. -/
theorem refl (hl : l ∈ p.leases) : GoesOn l p p l where
  mem := hl
  id := rfl
  slot := rfl
  resource := rfl
  stays h := h
  purpose := .inl
  unchanged _ hs _ := .inl hs

/-- The slot of a lease that goes on is left alone for one more step. -/
theorem unchanged_step (h : GoesOn l p m l') (hm : m.IsExclusive) (hpm : p.Steps m)
    (hstep : m.Step q) : ∀ s ∈ p.table.slots, s.id = l.slot → s ∈ q.table.slots ∨
      ∃ m, p.Steps m ∧ s ∈ m.table.slots ∧ (PoolM.takeOut .shutdown (·.drain) m).2.Steps q := by
  intro s hs hid
  rcases h.unchanged s hs hid with hs | ⟨o, hpo, hso, hoq⟩
  · rcases hstep.leased_slot hm h.mem hs (hid.trans h.slot.symm) with hs | rfl
    · exact .inl hs
    · exact .inr ⟨m, hpm, hs, .refl⟩
  · exact .inr ⟨o, hpo, hso, hoq.tail hstep⟩

/-- A lease that is still there after a step goes on. -/
theorem step (h : GoesOn l p m l') (hm : m.IsExclusive) (hlinked : m.IsLinked) (hpm : p.Steps m)
    (hstep : m.Step q) (hq : ∃ l' ∈ q.leases, l'.id = l.id) : ∃ l', GoesOn l p q l' := by
  have hunchanged := h.unchanged_step hm hpm hstep
  rcases hstep.lease_cases h.mem with hmem | rfl | ⟨rfl, -, -⟩
  · refine ⟨l', hmem, h.id, h.slot, h.resource, h.stays, fun hi => ?_, hunchanged⟩
    rcases h.purpose hi with hi | ⟨o, hpo, hom⟩
    · exact .inl hi
    · exact .inr ⟨o, hpo, hom.tail hstep⟩
  · refine ⟨{ l' with invalidated := true }, ?_, h.id, h.slot, h.resource, fun _ => rfl,
      fun _ => ?_, hunchanged⟩
    · exact List.mem_map.2 ⟨l', h.mem, if_pos rfl⟩
    · rw [h.id]
      exact .inr ⟨m, hpm, .refl⟩
  · obtain ⟨other, hother, hid⟩ := hq
    obtain ⟨hne, hother⟩ := hlinked.ids.of_map.mem_erase_iff.1 hother
    exact absurd (List.inj_on_of_nodup_map hlinked.ids hother h.mem (hid.trans h.id.symm)) hne

end GoesOn

/-- Leases and handles go together at any moment of a run. -/
theorem Arises.isLinked (h : q.Arises) : q.IsLinked :=
  h.invariant (fun _ => IsLinked.of_isNew) fun _ _ => IsLinked.step

/-- A lease that is still there goes on from any earlier moment at which it was there. -/
theorem Arises.goesOn (hp : p.Arises) (hl : l ∈ p.leases) (h : p.Steps q)
    (hq : ∃ l' ∈ q.leases, l'.id = l.id) : ∃ l', GoesOn l p q l' := by
  have hid : l.id < p.nextLease := hp.isLinked.fresh l hl
  induction h with
  | refl => exact ⟨l, .refl hl⟩
  | @tail m q hm h ih =>
    have hm' := hp.steps hm
    have hbefore : ∃ l' ∈ m.leases, l'.id = l.id :=
      Steps.exists_lease (.single h) (Nat.lt_of_lt_of_le hid (Steps.nextLease_le hm)) hq
    obtain ⟨l', hl'⟩ := ih hbefore
    exact hl'.step hm'.isExclusive hm'.isLinked hm h hq

/-- A lease that was invalidated and is still there is invalidated. -/
theorem Arises.invalidated_of_steps (hp : p.Arises) {m : Pool} (hpm : p.Steps m) {id : Nat}
    (hid : id < p.nextLease) (hmq : (PoolM.invalidateLease id m).2.Steps q) {l' : Lease}
    (hl' : l' ∈ q.leases) (he : l'.id = id) : l'.invalidated = true := by
  have hm := (hp.steps hpm).steps (.single (.invalidateLease id))
  have hfresh : id < (PoolM.invalidateLease id m).2.nextLease :=
    Nat.lt_of_lt_of_le hid (Steps.nextLease_le (hpm.tail (.invalidateLease id)))
  obtain ⟨l, hl, hlid⟩ := Steps.exists_lease hmq hfresh ⟨l', hl', he⟩
  have hbroken : l.invalidated = true := by
    obtain ⟨old, -, rfl⟩ := List.mem_map.1 hl
    by_cases hold : old.id = id
    · rw [if_pos hold]
    · rw [if_neg hold] at hlid
      exact absurd hlid hold
  obtain ⟨after, hafter⟩ := hm.goesOn hl hmq ⟨l', hl', he.trans hlid.symm⟩
  have hsame : after = l' := List.inj_on_of_nodup_map (hm.steps hmq).isLinked.ids hafter.mem hl'
    (hafter.id.trans (hlid.trans he.symm))
  exact hsame ▸ hafter.stays hbroken

end Pool

end LeasePool
