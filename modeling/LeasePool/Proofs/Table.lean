import LeasePool.Table.Basic
import Mathlib.Data.List.Nodup

/-!
# Slot tables in good order

In a table in good order no two slots have the same number, no number is still to be given out, and
no broken slot is left. Every operation of a pool on its table keeps it so: it changes the slots
with one number, takes slots out, adds one with a new number, or moves reservations.
-/

namespace LeasePool

namespace Table

variable {ρ : Type} {t u : Table ρ}

/-- The numbers of the slots, in table order. -/
def ids (t : Table ρ) : List Nat := t.slots.map (·.id)

/-- No two slots have the same number, no number is still to be given out, and no slot is broken. -/
structure IsSound (t : Table ρ) : Prop where
  nodup : t.ids.Nodup
  fresh : ∀ s ∈ t.slots, s.id < t.nextId
  valid : ∀ s ∈ t.slots, s.state ≠ .invalid

/-- The slots in use, in table order. -/
def held (t : Table ρ) : List (Slot ρ) := t.slots.filter (·.state == .inUse)

/-- Some slots have left a table, and nothing else has changed. -/
structure Prunes (t u : Table ρ) (taken : List (Slot ρ)) : Prop where
  slots : t.slots.Perm (taken ++ u.slots)
  creating : u.creating = t.creating
  nextId : u.nextId = t.nextId
  overdrawn : u.overdrawn = t.overdrawn

/-- The slots of a table with one changed are those of the table, except for the changed one. -/
theorem mem_modify {id : Nat} {change : Slot ρ → Slot ρ} {s : Slot ρ} :
    s ∈ (t.modify id change).slots ↔
      ∃ s' ∈ t.slots, s = if s'.id = id then change s' else s' := by
  simp only [modify, List.mem_map, eq_comm]

/-- A slot of a table with one changed is another one, or the changed one. -/
theorem mem_modify_iff_or {id : Nat} {change : Slot ρ → Slot ρ} {s : Slot ρ}
    (hs : s ∈ (t.modify id change).slots) :
    s ∈ t.slots ∧ s.id ≠ id ∨ ∃ s' ∈ t.slots, s'.id = id ∧ s = change s' := by
  obtain ⟨s', hs', rfl⟩ := mem_modify.1 hs
  by_cases hid : s'.id = id
  · rw [if_pos hid]
    exact .inr ⟨s', hs', hid, rfl⟩
  · rw [if_neg hid]
    exact .inl ⟨hs', hid⟩

/-- The slots of a table with a new one are those of the table, and the new one. -/
theorem mem_or_new_of_mem_commit {resource : ρ} {state : SlotState} {now : Instant} {s : Slot ρ}
    (hs : s ∈ (t.commit resource state now).2.slots) :
    s ∈ t.slots ∨ s.id = t.nextId ∧ s.resource = resource ∧ s.state = state := by
  rcases List.mem_append.1 hs with hs | hs
  · exact .inl hs
  · rw [List.mem_singleton.1 hs]
    exact .inr ⟨rfl, rfl, rfl⟩

/-- A changed slot is still the slot of its number and resource if the change leaves these alone. -/
theorem keeps_modify {id : Nat} {change : Slot ρ → Slot ρ} (hid : ∀ s, (change s).id = s.id)
    (hr : ∀ s, (change s).resource = s.resource) :
    ∀ s ∈ (t.modify id change).slots, ∃ s' ∈ t.slots, s'.id = s.id ∧ s'.resource = s.resource := by
  intro s hs
  obtain ⟨s', hs', rfl⟩ := mem_modify.1 hs
  refine ⟨s', hs', ?_⟩
  split
  · exact ⟨(hid s').symm, (hr s').symm⟩
  · exact ⟨rfl, rfl⟩

/-- Changing a slot leaves what the change leaves alone. -/
theorem map_modify {α : Type} {f : Slot ρ → α} {id : Nat} {change : Slot ρ → Slot ρ}
    (hf : ∀ s, f (change s) = f s) : (t.modify id change).slots.map f = t.slots.map f := by
  simp only [modify, List.map_map]
  refine List.map_congr_left fun s _ => ?_
  simp only [Function.comp_apply]
  split
  · exact hf s
  · rfl

theorem ids_modify {id : Nat} {change : Slot ρ → Slot ρ} (hid : ∀ s, (change s).id = s.id) :
    (t.modify id change).ids = t.ids :=
  map_modify hid

/-- Reservations do not matter for the order of a table. -/
theorem IsSound.of_eq (h : t.IsSound) (hs : u.slots = t.slots) (hn : u.nextId = t.nextId) :
    u.IsSound where
  nodup := by
    unfold ids
    rw [hs]
    exact h.nodup
  fresh s hmem := hn ▸ h.fresh s (hs ▸ hmem)
  valid s hmem := h.valid s (hs ▸ hmem)

/-- The slots in use are those of the table in that state. -/
theorem mem_held {s : Slot ρ} : s ∈ t.held ↔ s ∈ t.slots ∧ s.state = .inUse := by
  simp [held]

/-- In a table in good order a slot is known by its number. -/
theorem IsSound.eq_of_id (h : t.IsSound) {s s' : Slot ρ} (hs : s ∈ t.slots) (hs' : s' ∈ t.slots)
    (he : s.id = s'.id) : s = s' :=
  List.inj_on_of_nodup_map h.nodup hs hs' he

/-- What is found is a slot with the number. -/
theorem find?_some {id : Nat} {s : Slot ρ} (h : t.find? id = some s) : s ∈ t.slots ∧ s.id = id := by
  unfold find? at h
  exact ⟨List.mem_of_find?_eq_some h, by simpa using List.find?_some h⟩

namespace Prunes

variable {taken : List (Slot ρ)}

theorem mem (h : t.Prunes u taken) {s : Slot ρ} (hs : s ∈ u.slots) : s ∈ t.slots :=
  h.slots.mem_iff.2 (List.mem_append_right _ hs)

theorem length_le (h : t.Prunes u taken) : u.slots.length ≤ t.slots.length := by
  rw [h.slots.length_eq, List.length_append]
  omega

theorem map {α : Type} (h : t.Prunes u taken) (f : Slot ρ → α) :
    (t.slots.map f).Perm (taken.map f ++ u.slots.map f) := by
  rw [← List.map_append]
  exact h.slots.map f

theorem nodup (h : t.Prunes u taken) (hn : t.ids.Nodup) : u.ids.Nodup :=
  (List.nodup_append.1 ((h.map (·.id)).nodup_iff.1 hn)).2.1

/-- What is left of a table in good order is in good order. -/
theorem isSound (h : t.Prunes u taken) (ht : t.IsSound) : u.IsSound where
  nodup := h.nodup ht.nodup
  fresh s hs := h.nextId ▸ ht.fresh s (h.mem hs)
  valid s hs := ht.valid s (h.mem hs)

theorem refl (t : Table ρ) : t.Prunes t [] := ⟨.refl _, rfl, rfl, rfl⟩

/-- Slots that are taken out twice are taken out together. -/
theorem trans {v : Table ρ} {others : List (Slot ρ)} (h : t.Prunes u taken)
    (h' : u.Prunes v others) : t.Prunes v (taken ++ others) where
  slots := by
    rw [List.append_assoc]
    exact h.slots.trans (h'.slots.append_left taken)
  creating := h'.creating.trans h.creating
  nextId := h'.nextId.trans h.nextId
  overdrawn := h'.overdrawn.trans h.overdrawn

end Prunes

/-- A table in good order whose slots and reservations keep to a maximum that fits into a word. -/
structure Suits (t : Table ρ) (max : Nat) : Prop extends t.IsSound where
  bounded : t.slots.length + t.creating ≤ max
  max_le : max ≤ countLimit

namespace Suits

variable {taken : List (Slot ρ)} {max : Nat}

theorem fitsWord (h : t.Suits max) : t.FitsWord := Nat.le_trans h.bounded h.max_le

theorem live_eq (h : t.Suits max) : t.live = t.slots.length + t.creating :=
  live_eq_length h.valid h.fitsWord

/-- As much is reserved as the maximum leaves, and nothing wraps around. -/
theorem reserve_eq (h : t.Suits max) (wanted : Nat) :
    t.reserve wanted max = (min wanted (max - t.live),
      { t with creating := t.creating + min wanted (max - t.live) }) :=
  Table.reserve_eq h.valid h.fitsWord h.max_le wanted

/-- A table in good order with fewer slots still suits the maximum. -/
theorem shrink (h : t.Suits max) (hu : u.IsSound) (hs : u.slots.length ≤ t.slots.length)
    (hc : u.creating = t.creating) : u.Suits max where
  toIsSound := hu
  bounded := hc ▸ Nat.le_trans (Nat.add_le_add_right hs _) h.bounded
  max_le := h.max_le

/-- Taking slots out keeps to the maximum. -/
theorem prune (h : t.Suits max) (ht : t.Prunes u taken) : u.Suits max :=
  h.shrink (ht.isSound h.toIsSound) ht.length_le ht.creating

/-- A table with as many more reservations as the maximum leaves still suits it. -/
theorem grant (h : t.Suits max) {n : Nat} (hn : n ≤ max - t.live) :
    Suits { t with creating := t.creating + n } max where
  toIsSound := h.toIsSound.of_eq rfl rfl
  bounded := by
    have hlive := h.live_eq
    have hbounded := h.bounded
    change t.slots.length + (t.creating + n) ≤ max
    omega
  max_le := h.max_le

/-- More reservations are more live resources. -/
theorem live_grant (h : t.Suits max) {n : Nat} (hn : n ≤ max - t.live) :
    live { t with creating := t.creating + n } = t.live + n := by
  rw [(h.grant hn).live_eq, h.live_eq, Nat.add_assoc]

end Suits

/-- Changing a slot keeps a table in good order if its number stays and it does not break. -/
theorem IsSound.modify (h : t.IsSound) {id : Nat} {change : Slot ρ → Slot ρ}
    (hid : ∀ s, (change s).id = s.id)
    (hvalid : ∀ s, s.state ≠ .invalid → (change s).state ≠ .invalid) :
    (t.modify id change).IsSound where
  nodup := by
    rw [ids_modify hid]
    exact h.nodup
  fresh s hs := by
    obtain ⟨s', hs', rfl⟩ := mem_modify.1 hs
    split
    · rw [hid]
      exact h.fresh s' hs'
    · exact h.fresh s' hs'
  valid s hs := by
    obtain ⟨s', hs', rfl⟩ := mem_modify.1 hs
    split
    · exact hvalid s' (h.valid s' hs')
    · exact h.valid s' hs'

/-- A new slot gets a new number. -/
theorem IsSound.commit (h : t.IsSound) {resource : ρ} {state : SlotState} {now : Instant}
    (hs : state ≠ .invalid) : (t.commit resource state now).2.IsSound where
  nodup := by
    simp only [ids, Table.commit, List.map_append, List.map_cons, List.map_nil]
    refine List.nodup_append.2 ⟨h.nodup, List.nodup_singleton _, ?_⟩
    rintro a ha b hb rfl
    obtain ⟨s, hs', hid⟩ := List.mem_map.1 ha
    have := h.fresh s hs'
    rw [hid, List.mem_singleton.1 hb] at this
    exact Nat.lt_irrefl _ this
  fresh s hs' := by
    rcases mem_or_new_of_mem_commit hs' with hs' | ⟨hid, -, -⟩
    · exact Nat.lt_succ_of_lt (h.fresh s hs')
    · exact hid ▸ Nat.lt_succ_self _
  valid s hs' := by
    rcases mem_or_new_of_mem_commit hs' with hs' | ⟨-, -, hstate⟩
    · exact h.valid s hs'
    · exact hstate ▸ hs

/-- A removal takes out what it finds. -/
theorem prunes_remove (t : Table ρ) (id : Nat) :
    t.Prunes (t.remove id).2 (t.remove id).1.toList := by
  unfold remove
  split
  · next he => exact ⟨takeFirst_perm he, rfl, rfl, rfl⟩
  · exact .refl t

theorem id_of_remove {id : Nat} {s : Slot ρ} (h : (t.remove id).1 = some s) : s.id = id := by
  unfold remove at h
  split at h
  · next he =>
    obtain rfl := Option.some.inj h
    simpa using takeFirst_holds he
  · cases h

/-- Removals of several slots take out what they find. -/
theorem prunes_removeAll (ids : List Nat) (t : Table ρ) :
    t.Prunes (t.removeAll ids).2 (t.removeAll ids).1 := by
  induction ids generalizing t with
  | nil => exact .refl t
  | cons id ids ih => exact (t.prunes_remove id).trans (ih (t.remove id).2)

/-- Only slots with the numbers are taken out. -/
theorem id_mem_of_mem_removeAll {ids : List Nat} {s : Slot ρ} (hs : s ∈ (t.removeAll ids).1) :
    s.id ∈ ids := by
  induction ids generalizing t with
  | nil => exact absurd hs List.not_mem_nil
  | cons id ids ih =>
    rcases List.mem_append.1 hs with hs | hs
    · exact id_of_remove (Option.mem_toList.1 hs) ▸ List.mem_cons_self
    · exact List.mem_cons_of_mem _ (ih hs)

/-- A removal by a predicate takes out what it picks. -/
theorem prunes_removeIdleWhere (p : Slot ρ → Bool) (t : Table ρ) :
    t.Prunes (t.removeIdleWhere p).2 (t.removeIdleWhere p).1 := by
  rw [removeIdleWhere_eq]
  exact ⟨(sift_perm _ t.slots).trans List.perm_append_comm, rfl, rfl, rfl⟩

/-- What is taken out is idle and meets the condition. -/
theorem holds_of_mem_removeIdleWhere {p : Slot ρ → Bool} {s : Slot ρ}
    (hs : s ∈ (t.removeIdleWhere p).1) : (s.state == .idle && p s) = true := by
  rw [removeIdleWhere_eq] at hs
  have hmeets := sift_taken_holds hs
  exact hmeets

/-- What stays is not idle or does not meet the condition. -/
theorem fails_of_mem_removeIdleWhere {p : Slot ρ → Bool} {s : Slot ρ}
    (hs : s ∈ (t.removeIdleWhere p).2.slots) : (s.state == .idle && p s) = false := by
  rw [removeIdleWhere_eq] at hs
  have hfails := sift_kept_fails hs
  exact hfails

/-- A removal of the least recently used slots takes out what it picks. -/
theorem prunes_removeIdleLru (n : Nat) (t : Table ρ) :
    t.Prunes (t.removeIdleLru n).2 (t.removeIdleLru n).1 :=
  prunes_removeAll _ t

/-- A slot that is not idle is not taken out as one that meets a condition. -/
theorem mem_removeIdleWhere {s : Slot ρ} (hs : s ∈ t.slots) (hstate : s.state ≠ .idle)
    (p : Slot ρ → Bool) : s ∈ (t.removeIdleWhere p).2.slots := by
  rcases List.mem_append.1 ((t.prunes_removeIdleWhere p).slots.mem_iff.1 hs) with htaken | hkept
  · have hmeets := holds_of_mem_removeIdleWhere htaken
    simp [hstate] at hmeets
  · exact hkept

/-- A slot that is not idle is not taken out as one of the least recently used. -/
theorem IsSound.mem_removeIdleLru (h : t.IsSound) {s : Slot ρ} (hs : s ∈ t.slots)
    (hstate : s.state ≠ .idle) (n : Nat) : s ∈ (t.removeIdleLru n).2.slots := by
  rcases List.mem_append.1 ((t.prunes_removeIdleLru n).slots.mem_iff.1 hs) with htaken | hkept
  · obtain ⟨other, hother, hid⟩ := List.mem_map.1 (id_mem_of_mem_removeAll htaken)
    obtain ⟨hmem, hidle⟩ := List.mem_filter.1 (List.mem_mergeSort.1 (List.mem_of_mem_take hother))
    rw [h.eq_of_id hmem hs hid, beq_iff_eq] at hidle
    exact absurd hidle hstate
  · exact hkept

/-- A drain takes out all slots. -/
theorem prunes_drain (t : Table ρ) : t.Prunes t.drain.2 t.drain.1 :=
  ⟨by simp [drain], rfl, rfl, rfl⟩

/-- Removing the only slot with a number leaves all others. -/
theorem slots_remove (hn : t.ids.Nodup) (id : Nat) :
    (t.remove id).2.slots.Perm (t.slots.filter (·.id != id)) := by
  unfold remove
  split
  · next s rest he =>
    have hperm := takeFirst_perm he
    have hsid : s.id = id := by simpa using takeFirst_holds he
    have hids : t.ids.Perm (s.id :: rest.map (·.id)) := hperm.map _
    have hnotin := (List.nodup_cons.1 (hids.nodup_iff.1 hn)).1
    have hrest : rest.filter (·.id != id) = rest := by
      refine List.filter_eq_self.2 fun r hr => ?_
      have hne : r.id ≠ s.id := fun heq => hnotin (List.mem_map.2 ⟨r, hr, heq⟩)
      simpa [hsid] using hne
    refine List.Perm.trans ?_ (hperm.filter _).symm
    rw [List.filter_cons_of_neg (by simp [hsid]), hrest]
  · next he =>
    have hnone := takeFirst_eq_none_iff.1 he
    rw [List.filter_eq_self.2 fun s hs => by simpa using hnone s hs]

theorem filter_modify {id : Nat} {change : Slot ρ → Slot ρ} (hid : ∀ s, (change s).id = s.id) :
    (t.modify id change).slots.filter (·.id != id) = t.slots.filter (·.id != id) := by
  unfold modify
  induction t.slots with
  | nil => rfl
  | cons s slots ih =>
    rw [List.map_cons]
    by_cases hs : s.id = id
    · rw [if_pos hs, List.filter_cons_of_neg (by simp [hid, hs]),
        List.filter_cons_of_neg (by simp [hs]), ih]
    · rw [if_neg hs, List.filter_cons_of_pos (by simp [hs]), List.filter_cons_of_pos (by simp [hs]),
        ih]

/-- The slots in use other than the one with a number are those among the others. -/
theorem filter_held (t : Table ρ) (id : Nat) :
    t.held.filter (·.id != id) = (t.slots.filter (·.id != id)).filter (·.state == .inUse) :=
  List.filter_comm ..

/-- Changing a slot leaves the others that are in use. -/
theorem filter_held_modify {id : Nat} {change : Slot ρ → Slot ρ}
    (hid : ∀ s, (change s).id = s.id) :
    (t.modify id change).held.filter (·.id != id) = t.held.filter (·.id != id) := by
  rw [filter_held, filter_modify hid, ← filter_held]

/-- A broken slot leaves the table, and all others stay. -/
theorem slots_invalidate (hn : t.ids.Nodup) (id : Nat) :
    (t.invalidate id).2.slots.Perm (t.slots.filter (·.id != id)) := by
  have hid : ∀ s : Slot ρ, { s with state := .invalid }.id = s.id := fun _ => rfl
  have hnodup : (t.setState id .invalid).ids.Nodup := (ids_modify hid).symm ▸ hn
  have hperm := slots_remove hnodup id
  rwa [setState, filter_modify hid] at hperm

/-- Invalidating a slot takes out the slot with that number. -/
theorem prunes_invalidate (hn : t.ids.Nodup) (id : Nat) :
    t.Prunes (t.invalidate id).2 (t.slots.filter (·.id == id)) := by
  have hremove := (t.setState id .invalid).prunes_remove id
  refine ⟨?_, hremove.creating, hremove.nextId, hremove.overdrawn⟩
  refine List.Perm.trans ?_ ((slots_invalidate hn id).symm.append_left _)
  have := List.filter_append_perm (fun s : Slot ρ => s.id == id) t.slots
  simpa [bne] using this.symm

/-- A broken slot that leaves the table takes along all but its state. -/
theorem map_invalidate {α : Type} {f : Slot ρ → α} (hf : ∀ s, f { s with state := .invalid } = f s)
    (t : Table ρ) (id : Nat) : (t.slots.map f).Perm
      ((t.invalidate id).1.toList.map f ++ (t.invalidate id).2.slots.map f) := by
  have hremove := ((t.setState id .invalid).prunes_remove id).map f
  rwa [setState, map_modify hf] at hremove

theorem nextId_invalidate (t : Table ρ) (id : Nat) : (t.invalidate id).2.nextId = t.nextId :=
  ((t.setState id .invalid).prunes_remove id).nextId

/-- Only the slot with the number is taken out as broken. -/
theorem id_of_invalidate {id : Nat} {s : Slot ρ} (h : (t.invalidate id).1 = some s) : s.id = id :=
  id_of_remove h

/-- Take a broken slot out. It is the only one that is taken out, if it is in the table. -/
def takeInvalid (id : Nat) (t : Table ρ) : List (Slot ρ) × Table ρ :=
  ((t.invalidate id).1.toList, (t.invalidate id).2)

theorem keeps_invalidate (t : Table ρ) (id : Nat) :
    ∀ s ∈ (t.invalidate id).2.slots, ∃ s' ∈ t.slots, s'.id = s.id ∧ s'.resource = s.resource := by
  intro s hs
  have hmem : s ∈ (t.modify id fun s => { s with state := .invalid }).slots :=
    ((t.setState id .invalid).prunes_remove id).mem hs
  refine keeps_modify ?_ ?_ s hmem
  · exact fun _ => rfl
  · exact fun _ => rfl

/-- What an acquisition claims was idle, and is in use from then on. -/
theorem claimIdle_eq_some {s : Slot ρ} (h : t.claimIdle = some (s, u)) :
    ∃ s' ∈ t.slots, s'.state = .idle ∧ s = { s' with state := .inUse } ∧
      u = t.setState s'.id .inUse := by
  obtain ⟨s', hs', he⟩ := Option.map_eq_some_iff.1 h
  obtain ⟨rfl, rfl⟩ := Prod.mk.inj he
  exact ⟨s', List.mem_of_find?_eq_some hs', by simpa using List.find?_some hs', rfl, rfl⟩

/-- What is claimed for a check was idle, and is pending from then on. -/
theorem claimForCheck_eq_some {id : Nat} {s : Slot ρ} (h : t.claimForCheck id = some (s, u)) :
    ∃ s' ∈ t.slots, s'.id = id ∧ s'.state = .idle ∧ s = { s' with state := .pending } ∧
      u = t.setState id .pending := by
  unfold claimForCheck at h
  split at h
  · next s' hs' =>
    obtain ⟨hmem, hid⟩ := find?_some hs'
    split at h
    · next hidle =>
      obtain ⟨rfl, rfl⟩ := Prod.mk.inj (Option.some.inj h)
      exact ⟨s', hmem, hid, hidle, rfl, rfl⟩
    · cases h
  · cases h

end Table

end LeasePool
