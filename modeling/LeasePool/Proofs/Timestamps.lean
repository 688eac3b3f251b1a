import LeasePool.Proofs.Destruction
import LeasePool.Proofs.LeastRecent
import LeasePool.Proofs.Marks

/-!
# Times of slots

A slot has three times: when it was created, when it was last released or created, and when it was
last found healthy. All three can be read off the history, since a slot is dated only when that is
told there. An idle timeout evicts by the second of them.
-/

namespace LeasePool

/-- Why a slot is dated. -/
inductive Stamp
  | created
  | freed
  | marked
deriving DecidableEq

/-- The slot that is dated when an entry is written, and why. -/
def Entry.stamp? : Entry → Option (Stamp × Nat)
  | .event (.resourceCreated slot _) => some (.created, slot)
  | .freeing slot _ => some (.freed, slot)
  | .confirmed slot => some (.marked, slot)
  | _ => none

/-- The number of a slot with its times. -/
structure Dates where
  slot : Nat
  createdAt : Instant
  lastUsed : Instant
  lastCheck : Option Instant
deriving DecidableEq

/-- The identifier of a slot and its three times. -/
def Slot.dates (s : Slot Nat) : Dates := ⟨s.id, s.createdAt, s.lastUsed, s.lastCheck⟩

/-- The times of slots, with one slot dated anew. -/
def Dates.redate (slot : Nat) (date : Dates → Dates) (dates : List Dates) : List Dates :=
  dates.map fun d => if d.slot = slot then date d else d

/-- After dating one slot anew the others have their old times. -/
theorem Dates.mem_redate {slot : Nat} {date : Dates → Dates} {dates : List Dates} {d : Dates}
    (h : d ∈ redate slot date dates) :
    d ∈ dates ∧ d.slot ≠ slot ∨ ∃ old ∈ dates, old.slot = slot ∧ d = date old := by
  obtain ⟨old, hold, rfl⟩ := List.mem_map.1 h
  by_cases hslot : old.slot = slot
  · exact .inr ⟨old, hold, hslot, if_pos hslot⟩
  · rw [if_neg hslot]
    exact .inl ⟨hold, hslot⟩

namespace Pool

variable {p q : Pool} {kind : Stamp} {slot : Nat} {r : Record} {d : Dates}

/-- The entries that date slots, the latest first. -/
def stamps (p : Pool) : List Record := p.history.filter (·.entry.stamp?.isSome)

/-- When a slot was dated for a reason, the latest time first. -/
def times (p : Pool) (kind : Stamp) (slot : Nat) : List Instant :=
  (p.history.filter (·.entry.stamp? == some (kind, slot))).map (·.time)

/-- The slots of the table with their times. -/
def dates (p : Pool) : List Dates := p.table.slots.map Slot.dates

/-- The times of a slot are those of its creation, which was one, of its latest release if there was
any, and of its latest mark. -/
structure Dated (p : Pool) (d : Dates) : Prop where
  created : p.times .created d.slot = [d.createdAt]
  used : d.lastUsed = (p.times .freed d.slot).headD d.createdAt
  checked : d.lastCheck = (p.times .marked d.slot).head?
  created_le : d.createdAt ≤ d.lastUsed
  used_le : d.lastUsed ≤ p.clock.now
  checked_le : ∀ time, d.lastCheck = some time → d.createdAt ≤ time ∧ time ≤ p.clock.now

/-- All slots have the times that the history tells, and it tells nothing of slots to come. -/
structure IsDated (p : Pool) : Prop where
  slots : ∀ d ∈ p.dates, p.Dated d
  unborn : ∀ kind slot, p.table.nextId ≤ slot → p.times kind slot = []

/-- What a step does to the times of the slots: nothing, or it dates one slot by the clock. Only a
lease that is given back moves the last use of a slot. -/
inductive Redates (p q : Pool) : Prop
  | aside (hs : q.stamps = p.stamps) (hd : q.dates ⊆ p.dates)
      (hn : q.table.nextId = p.table.nextId)
  | create (r : Record) (hr : r.entry.stamp? = some (.created, p.table.nextId))
      (ht : r.time = q.clock.now) (hs : q.stamps = r :: p.stamps)
      (hd : q.dates = p.dates ++ [⟨p.table.nextId, r.time, r.time, none⟩])
      (hn : q.table.nextId = p.table.nextId + 1)
  | free (lease : Lease) (hq : q = (PoolM.giveBack lease p).2) (r : Record)
      (hr : r.entry.stamp? = some (.freed, lease.slot))
      (ht : r.time = q.clock.now) (hs : q.stamps = r :: p.stamps)
      (hd : q.dates = Dates.redate lease.slot (fun d => { d with lastUsed := r.time }) p.dates)
      (hlt : lease.slot < p.table.nextId) (hn : q.table.nextId = p.table.nextId)
  | mark (slot : Nat) (r : Record) (hr : r.entry.stamp? = some (.marked, slot))
      (ht : r.time = q.clock.now) (hs : q.stamps = r :: p.stamps)
      (hd : q.dates = Dates.redate slot (fun d => { d with lastCheck := some r.time }) p.dates)
      (hlt : slot < p.table.nextId) (hn : q.table.nextId = p.table.nextId)

theorem times_eq (p : Pool) (kind : Stamp) (slot : Nat) :
    p.times kind slot =
      (p.stamps.filter (·.entry.stamp? == some (kind, slot))).map (·.time) := by
  rw [times, stamps, List.filter_filter]
  congr 1
  refine List.filter_congr fun r _ => ?_
  cases h : r.entry.stamp? with
  | none => rfl
  | some found => simp

theorem times_of_stamps (hs : q.stamps = p.stamps) (kind : Stamp) (slot : Nat) :
    q.times kind slot = p.times kind slot := by
  rw [times_eq, times_eq, hs]

/-- A new stamp is the latest time of its slot. -/
theorem times_of_cons (hs : q.stamps = r :: p.stamps) (hr : r.entry.stamp? = some (kind, slot)) :
    q.times kind slot = r.time :: p.times kind slot := by
  rw [times_eq, times_eq, hs, List.filter_cons_of_pos (by simp [hr]), List.map_cons]

/-- An entry that dates a slot does not date others, and not for other reasons. -/
theorem times_of_cons_ne (hs : q.stamps = r :: p.stamps) {found : Stamp × Nat}
    (hr : r.entry.stamp? = some found) (hne : found ≠ (kind, slot)) :
    q.times kind slot = p.times kind slot := by
  rw [times_eq, times_eq, hs, List.filter_cons_of_neg (by simp [hr, hne])]

/-- A remark dates nothing. -/
theorem stamps_note_remark {e : Entry} (he : e.IsRemark) : (p.note e).stamps = p.stamps := by
  cases e with
  | event e =>
    cases e with
    | resourceCreated => exact he.elim
    | _ => rfl
  | freeing | confirmed => exact he.elim
  | _ => rfl

/-- No step takes the clock back. -/
theorem Step.now_le (h : p.Step q) : p.clock.now ≤ q.clock.now := by
  cases h with
  | ambient _ _ _ _ _ _ _ _ _ _ _ _ _ _ ht => exact ht
  | commit | confirm | giveBack | reinstate => exact Clock.now_le_read _
  | destroyOne => exact Nat.le_of_eq (by rw [bury_eq]; rfl)
  | letGo => exact Nat.le_of_eq (by rw [discard_eq]; rfl)
  | lose => exact Nat.le_of_eq (by rw [settle_eq])
  | _ => exact Nat.le_refl _

/-- Slots that are changed but for their times keep these. -/
theorem dates_modify_subset (id : Nat) {change : Slot Nat → Slot Nat}
    (h : ∀ s, (change s).dates = s.dates) :
    (p.table.modify id change).slots.map Slot.dates ⊆ p.dates := by
  rw [Table.map_modify h]
  exact List.Subset.refl _

/-- Slots that leave the table leave the times of the others. -/
theorem dates_subset_of_prunes {t : Table Nat} {taken : List (Slot Nat)}
    (h : p.table.Prunes t taken) : t.slots.map Slot.dates ⊆ p.dates :=
  List.map_subset _ fun _ => h.mem

theorem dates_invalidate_subset (t : Table Nat) (id : Nat) :
    (t.invalidate id).2.slots.map Slot.dates ⊆ t.slots.map Slot.dates := by
  have hperm : (t.slots.map Slot.dates).Perm _ := Table.map_invalidate (fun _ => rfl) t id
  exact fun d hd => hperm.mem_iff.2 (List.mem_append_right _ hd)

/-- A slot that is changed gets the times that the change gives it. -/
theorem dates_modify_of_dated {change : Slot Nat → Slot Nat} {date : Dates → Dates}
    (h : ∀ s ∈ p.table.slots, s.id = slot → (change s).dates = date s.dates) :
    (p.table.modify slot change).slots.map Slot.dates = Dates.redate slot date p.dates := by
  rw [dates, Dates.redate, Table.modify, List.map_map, List.map_map]
  refine List.map_congr_left fun s hs => ?_
  have hslot : s.dates.slot = s.id := rfl
  rw [Function.comp_apply, Function.comp_apply, hslot]
  split
  · next hid => exact h s hs hid
  · rfl

/-- A step dates a slot when it creates, releases or marks one, and nothing else dates slots. -/
theorem Step.redates (hp : p.IsExclusive) (h : p.Step q) : p.Redates q := by
  have hlt : ∀ {tenure : Tenure} {id resource : Nat},
      .slot tenure id resource ∈ p.holdings → id < p.table.nextId := fun hh =>
    hp.fresh _ (mem_owners_of_holding hh rfl)
  cases h with
  | commit resource state origin =>
    exact .create _ rfl rfl rfl List.map_append rfl
  | giveBack lease h =>
    refine .free lease rfl _ rfl rfl rfl ?_ (hlt h) rfl
    exact dates_modify_of_dated fun _ _ _ => rfl
  | confirm id resource h =>
    refine .mark id _ rfl rfl rfl ?_ (hlt h) rfl
    exact dates_modify_of_dated fun _ _ _ => rfl
  | reinstate id resource h =>
    refine .mark id _ rfl rfl rfl ?_ (hlt h) rfl
    refine dates_modify_of_dated fun s hs hid => ?_
    have howner : ⟨id, resource, true⟩ ∈ p.owners := mem_owners_of_holding h rfl
    have hpending : s.state = .pending := (hp.of_owner howner hs hid).1
    rw [PoolM.passed, if_pos hpending]
    rfl
  | remark e he => exact .aside (stamps_note_remark he) (List.Subset.refl _) rfl
  | claim s t h =>
    obtain ⟨s', -, -, rfl, rfl⟩ := Table.claimIdle_eq_some h
    exact .aside rfl (dates_modify_subset _ fun _ => rfl) rfl
  | park id s t h =>
    obtain ⟨s', -, -, -, rfl, rfl⟩ := Table.claimForCheck_eq_some h
    exact .aside rfl (dates_modify_subset _ fun _ => rfl) rfl
  | unpark id resource error =>
    refine .aside rfl (dates_modify_subset id fun s => ?_) rfl
    unfold PoolM.unparked
    split <;> rfl
  | giveUp lease =>
    exact .aside rfl (dates_invalidate_subset p.table lease.slot) (Table.nextId_invalidate _ _)
  | takeOutBroken tenure id =>
    exact .aside rfl (dates_invalidate_subset p.table id) (Table.nextId_invalidate _ _)
  | takeOutLru n =>
    have hprunes := Table.prunes_removeIdleLru n p.table
    exact .aside rfl (dates_subset_of_prunes hprunes) hprunes.nextId
  | takeOutExpired f =>
    have hprunes := Table.prunes_removeIdleWhere f p.table
    exact .aside rfl (dates_subset_of_prunes hprunes) hprunes.nextId
  | drain => exact .aside rfl (dates_subset_of_prunes (Table.prunes_drain _)) rfl
  | destroyOne =>
    rw [bury_eq]
    exact .aside rfl (List.Subset.refl _) rfl
  | letGo =>
    rw [discard_eq]
    exact .aside rfl (List.Subset.refl _) rfl
  | lose =>
    rw [settle_eq]
    exact .aside rfl (List.Subset.refl _) rfl
  | _ => exact .aside rfl (List.Subset.refl _) rfl

/-- A slot that has times was given its number. -/
theorem IsDated.lt_nextId (h : p.IsDated) (hd : d ∈ p.dates) : d.slot < p.table.nextId := by
  refine Nat.lt_of_not_le fun hle => ?_
  have hnone := h.unborn .created d.slot hle
  rw [(h.slots d hd).created] at hnone
  cases hnone

/-- A slot keeps its times while nothing dates it and the clock goes on. -/
theorem Dated.of_times (h : p.Dated d) (ht : ∀ kind, q.times kind d.slot = p.times kind d.slot)
    (hle : p.clock.now ≤ q.clock.now) : q.Dated d where
  created := (ht .created).trans h.created
  used := (ht .freed).symm ▸ h.used
  checked := (ht .marked).symm ▸ h.checked
  created_le := h.created_le
  used_le := Nat.le_trans h.used_le hle
  checked_le time hc := ⟨(h.checked_le time hc).1, Nat.le_trans (h.checked_le time hc).2 hle⟩

/-- A released slot was last used when it was released. -/
theorem Dated.free (h : p.Dated d) (hr : r.entry.stamp? = some (.freed, d.slot))
    (ht : r.time = q.clock.now) (hs : q.stamps = r :: p.stamps)
    (hle : p.clock.now ≤ q.clock.now) : q.Dated { d with lastUsed := r.time } where
  created := (times_of_cons_ne hs hr (by nofun)).trans h.created
  used := by rw [times_of_cons hs hr, List.headD_cons]
  checked := by
    have hsame : q.times .marked d.slot = p.times .marked d.slot := times_of_cons_ne hs hr nofun
    rw [hsame]
    exact h.checked
  created_le := ht ▸ Nat.le_trans (Nat.le_trans h.created_le h.used_le) hle
  used_le := Nat.le_of_eq ht
  checked_le time hc := ⟨(h.checked_le time hc).1, Nat.le_trans (h.checked_le time hc).2 hle⟩

/-- A marked slot was last found healthy when it was marked. -/
theorem Dated.mark (h : p.Dated d) (hr : r.entry.stamp? = some (.marked, d.slot))
    (ht : r.time = q.clock.now) (hs : q.stamps = r :: p.stamps)
    (hle : p.clock.now ≤ q.clock.now) : q.Dated { d with lastCheck := some r.time } where
  created := (times_of_cons_ne hs hr (by nofun)).trans h.created
  used := by
    have hsame : q.times .freed d.slot = p.times .freed d.slot := times_of_cons_ne hs hr nofun
    rw [hsame]
    exact h.used
  checked := by rw [times_of_cons hs hr, List.head?_cons]
  created_le := h.created_le
  used_le := Nat.le_trans h.used_le hle
  checked_le time hc := by
    obtain rfl := Option.some.inj hc
    exact ⟨ht ▸ Nat.le_trans (Nat.le_trans h.created_le h.used_le) hle, Nat.le_of_eq ht⟩

/-- A new slot has the time of its creation only. -/
theorem IsDated.create (hp : p.IsDated) (hr : r.entry.stamp? = some (.created, p.table.nextId))
    (ht : r.time = q.clock.now) (hs : q.stamps = r :: p.stamps) :
    q.Dated ⟨p.table.nextId, r.time, r.time, none⟩ where
  created := by rw [times_of_cons hs hr, hp.unborn .created _ (Nat.le_refl _)]
  used := by
    have hnone : q.times .freed p.table.nextId = [] :=
      (times_of_cons_ne hs hr (by nofun)).trans (hp.unborn .freed _ (Nat.le_refl _))
    rw [hnone, List.headD_nil]
  checked := by
    have hnone : q.times .marked p.table.nextId = [] :=
      (times_of_cons_ne hs hr (by nofun)).trans (hp.unborn .marked _ (Nat.le_refl _))
    rw [hnone, List.head?_nil]
  created_le := Nat.le_refl _
  used_le := Nat.le_of_eq ht
  checked_le := nofun

/-- An entry that dates one slot leaves the other slots and the slots to come alone. -/
theorem IsDated.of_cons (hp : p.IsDated) (hle : p.clock.now ≤ q.clock.now)
    (hr : r.entry.stamp? = some (kind, slot)) (hs : q.stamps = r :: p.stamps)
    (hlt : slot < q.table.nextId) (hn : p.table.nextId ≤ q.table.nextId)
    (hd : ∀ d ∈ q.dates, d ∈ p.dates ∧ d.slot ≠ slot ∨ q.Dated d) : q.IsDated where
  slots d hmem := by
    rcases hd d hmem with ⟨hold, hne⟩ | hdated
    · refine (hp.slots d hold).of_times (fun _ => times_of_cons_ne hs hr fun he => hne ?_) hle
      exact (Prod.mk.inj he).2.symm
    · exact hdated
  unborn other id hid := by
    refine (times_of_cons_ne hs hr fun he => ?_).trans (hp.unborn other id (Nat.le_trans hn hid))
    exact Nat.not_lt_of_le hid ((Prod.mk.inj he).2 ▸ hlt)

/-- What dates the slots keeps their times as the history tells them. -/
theorem Redates.isDated (h : p.Redates q) (hle : p.clock.now ≤ q.clock.now) (hp : p.IsDated) :
    q.IsDated := by
  have hdated : ∀ {slot : Nat} {date : Dates → Dates}, q.dates = Dates.redate slot date p.dates →
      (∀ d ∈ p.dates, d.slot = slot → q.Dated (date d)) →
      ∀ d ∈ q.dates, d ∈ p.dates ∧ d.slot ≠ slot ∨ q.Dated d := by
    intro slot date hd hdate d hmem
    rcases Dates.mem_redate (hd ▸ hmem) with hold | ⟨old, hold, hslot, rfl⟩
    · exact .inl hold
    · exact .inr (hdate old hold hslot)
  cases h with
  | aside hs hd hn =>
    exact ⟨fun d hmem => (hp.slots d (hd hmem)).of_times (fun _ => times_of_stamps hs _ _) hle,
      fun kind slot hslot => (times_of_stamps hs _ _).trans (hp.unborn kind slot (hn ▸ hslot))⟩
  | create r hr ht hs hd hn =>
    refine hp.of_cons hle hr hs (hn ▸ Nat.lt_succ_self _) (hn ▸ Nat.le_succ _) fun d hmem => ?_
    rw [hd] at hmem
    rcases List.mem_append.1 hmem with hold | hnew
    · exact .inl ⟨hold, Nat.ne_of_lt (hp.lt_nextId hold)⟩
    · exact .inr (List.mem_singleton.1 hnew ▸ hp.create hr ht hs)
  | free lease hq r hr ht hs hd hlt hn =>
    refine hp.of_cons hle hr hs (hn ▸ hlt) (Nat.le_of_eq hn.symm) (hdated hd fun d hold hslot => ?_)
    exact (hp.slots d hold).free (hslot ▸ hr) ht hs hle
  | mark slot r hr ht hs hd hlt hn =>
    refine hp.of_cons hle hr hs (hn ▸ hlt) (Nat.le_of_eq hn.symm) (hdated hd fun d hold hslot => ?_)
    exact (hp.slots d hold).mark (hslot ▸ hr) ht hs hle

/-- A new pool has no slots to date. -/
theorem IsDated.of_isNew (hp : p.IsNew) : p.IsDated := by
  obtain ⟨⟩ := hp
  exact ⟨fun _ hd => absurd hd List.not_mem_nil, fun _ _ _ => rfl⟩

/-- At any moment of a run, slots have the times that the history tells. -/
theorem Arises.isDated (h : q.Arises) : q.IsDated := by
  refine (h.invariant (I := fun p => p.IsExclusive ∧ p.IsDated) ?_ ?_).2
  · exact fun p hp => ⟨.of_isNew hp, .of_isNew hp⟩
  · exact fun p q hp hs => ⟨hp.1.step hs, (hs.redates hp.1).isDated hs.now_le hp.2⟩

/-- The history goes on, and so do the times that it tells. -/
theorem Steps.times_suffix (h : p.Steps q) (kind : Stamp) (slot : Nat) :
    p.times kind slot <:+ q.times kind slot :=
  (h.history_suffix.filter _).map _

/-- A slot keeps the time of its creation. -/
theorem IsDated.createdAt_eq (hp : p.IsDated) (hq : q.IsDated) (h : p.Steps q) {s s' : Slot Nat}
    (hs : s ∈ p.table.slots) (hs' : s' ∈ q.table.slots) (hid : s'.id = s.id) :
    s'.createdAt = s.createdAt := by
  have hthen : p.times .created s.id = [s.createdAt] :=
    (hp.slots s.dates (List.mem_map_of_mem hs)).created
  have hnow : q.times .created s.id = [s'.createdAt] :=
    hid ▸ (hq.slots s'.dates (List.mem_map_of_mem hs')).created
  have hsuffix := h.times_suffix .created s.id
  rw [hthen, hnow] at hsuffix
  exact (List.singleton_inj.1 (hsuffix.eq_of_length rfl)).symm

/-- In a table in good order the times of a slot are known by its number. -/
theorem dates_eq_of_slot (hp : p.table.IsSound) {s : Slot Nat} (hs : s ∈ p.table.slots)
    (hd : d ∈ p.dates) (hid : d.slot = s.id) : d = s.dates := by
  obtain ⟨s', hs', rfl⟩ := List.mem_map.1 hd
  rw [hp.eq_of_id hs' hs hid]

/-- A step leaves the last use of a slot alone unless it gives the slot back. -/
theorem Redates.lastUsed_eq (h : p.Redates q) (hp : p.table.IsSound) {s s' : Slot Nat}
    (hs : s ∈ p.table.slots) (hs' : s' ∈ q.table.slots) (hid : s'.id = s.id) :
    s'.lastUsed = s.lastUsed ∨
      ∃ lease : Lease, lease.slot = s.id ∧ q = (PoolM.giveBack lease p).2 := by
  have hmem : s'.dates ∈ q.dates := List.mem_map_of_mem hs'
  cases h with
  | aside _ hd => exact .inl (congrArg Dates.lastUsed (dates_eq_of_slot hp hs (hd hmem) hid))
  | create r _ _ _ hd =>
    rw [hd] at hmem
    rcases List.mem_append.1 hmem with hold | hnew
    · exact .inl (congrArg Dates.lastUsed (dates_eq_of_slot hp hs hold hid))
    · have hnext : s'.id = p.table.nextId := congrArg Dates.slot (List.mem_singleton.1 hnew)
      exact absurd (hid.symm.trans hnext) (Nat.ne_of_lt (hp.fresh s hs))
  | free lease hq r _ _ _ hd =>
    rcases Dates.mem_redate (hd ▸ hmem) with ⟨hold, -⟩ | ⟨d, hold, hslot, he⟩
    · exact .inl (congrArg Dates.lastUsed (dates_eq_of_slot hp hs hold hid))
    · have hsame : s'.id = d.slot := congrArg Dates.slot he
      exact .inr ⟨lease, (hslot.symm.trans hsame.symm).trans hid, hq⟩
  | mark slot r _ _ _ hd =>
    rcases Dates.mem_redate (hd ▸ hmem) with ⟨hold, -⟩ | ⟨d, hold, -, he⟩
    · exact .inl (congrArg Dates.lastUsed (dates_eq_of_slot hp hs hold hid))
    · have hsame : s'.id = d.slot := congrArg Dates.slot he
      have hd : d = s.dates := dates_eq_of_slot hp hs hold (hsame.symm.trans hid)
      exact .inl ((congrArg Dates.lastUsed he).trans (congrArg Dates.lastUsed hd))

/-- A number of a slot that was given out and that no slot of the table has any more. -/
def IsSpent (p : Pool) (id : Nat) : Prop := id < p.table.nextId ∧ ∀ d ∈ p.dates, d.slot ≠ id

/-- Numbers are not given out twice. -/
theorem Redates.isSpent {id : Nat} (h : p.Redates q) (hp : p.IsSpent id) : q.IsSpent id := by
  have hdated : ∀ {slot : Nat} {date : Dates → Dates}, (∀ d, (date d).slot = d.slot) →
      ∀ d ∈ Dates.redate slot date p.dates, d.slot ≠ id := by
    intro slot date hdate d hmem
    rcases Dates.mem_redate hmem with ⟨hold, -⟩ | ⟨old, hold, -, rfl⟩
    · exact hp.2 d hold
    · exact hdate old ▸ hp.2 old hold
  cases h with
  | aside hs hd hn => exact ⟨hn ▸ hp.1, fun d hmem => hp.2 d (hd hmem)⟩
  | create r hr ht hs hd hn =>
    refine ⟨hn ▸ Nat.lt_succ_of_lt hp.1, fun d hmem => ?_⟩
    rw [hd] at hmem
    rcases List.mem_append.1 hmem with hold | hnew
    · exact hp.2 d hold
    · rw [List.mem_singleton.1 hnew]
      exact Nat.ne_of_gt hp.1
  | free lease hq r hr ht hs hd hlt hn => exact ⟨hn ▸ hp.1, hd ▸ hdated fun _ => rfl⟩
  | mark slot r hr ht hs hd hlt hn => exact ⟨hn ▸ hp.1, hd ▸ hdated fun _ => rfl⟩

/-- A number that was spent stays spent. -/
theorem Steps.isSpent {id : Nat} (h : p.Steps q) (he : p.IsExclusive) (hp : p.IsSpent id) :
    q.IsSpent id :=
  (h.invariant (I := fun p => p.IsExclusive ∧ p.IsSpent id)
    (fun _ _ hp hs => ⟨hp.1.step hs, (hs.redates hp.1).isSpent hp.2⟩) ⟨he, hp⟩).2

end Pool

namespace PoolM

variable {nested : Op → PoolM Reply} {p q : Pool}

open Pool (publicRun)

theorem careCycle_snd (nested : Op → PoolM Reply) (p : Pool) :
    (careCycle nested p).2 = (attempt nested (runCare nested) p).2 := by
  unfold careCycle
  rw [bind_apply]
  rcases attempt nested (runCare nested) p with ⟨(_ | _) | _ | _, q⟩ <;> rfl

/-- A cycle that evicts takes out what has expired before it does anything else. -/
theorem runCare_eq_destroy (hgo : p.careStops = false)
    (he : p.config.eviction.isEnabled = true) (nested : Op → PoolM Reply) :
    runCare nested p = (do
      destroy nested .expired p.expired
      careFrom nested p.expired.length : PoolM (Except CareFailure CareReport)) p.ousted := by
  rw [runCare_eq_evict hgo, bind_apply, Pool.evict_eq_destroy he, bind_apply, bind_apply]
  rcases destroy nested .expired p.expired p.ousted with ⟨_ | _ | _, _⟩ <;> rfl

/-- A cycle goes on by steps from where it has taken out what has expired. -/
theorem Nests.steps_careCycle (hn : Nests publicRun nested) (hp : p.IsTame)
    (hgo : p.careStops = false) (he : p.config.eviction.isEnabled = true) :
    p.ousted.Steps (PoolM.careCycle nested p).2 := by
  have hheld : p.ousted.holdings = p.expired.map (.removed .expired) ++ p.holdings := rfl
  have hcare := (hn.destroy hheld nofun).bind fun _ _ hq =>
    (hn.careFrom p.expired.length).from hq
  rw [careCycle_snd]
  exact hn.moves_attempt (runCare_eq_destroy hgo he nested)
    (publicRun.keep hp p.steps_ousted) hcare

end PoolM

namespace Pool

variable {p q : Pool}

/-- A cycle of the health-care job first evicts the slots that have been idle for longer than a
timeout. It takes out these at once and no others, destroys one after the other, and they do not
come back while it goes on. -/
structure EvictsUnused (p : Pool) (timeout : Duration) (nested : Op → PoolM Reply) : Prop where
  cycle : PoolM.runCare nested p = (do
    PoolM.destroy nested .expired p.expired
    PoolM.careFrom nested p.expired.length : PoolM (Except CareFailure CareReport)) p.ousted
  expired : ∀ s, s ∈ p.expired ↔ s ∈ p.table.slots ∧ s.state = .idle ∧
    timeout.nanos < p.clock.read.now - (p.times .freed s.id).headD s.createdAt
  evicted : p.table.slots.Perm (p.expired ++ p.ousted.table.slots)
  gone : ∀ s ∈ p.expired, s.id ∉ (PoolM.careCycle nested p).2.table.ids
  /-- Destructors that run no operation leave exactly the eviction in the books. -/
  loses : (∀ r, p.user.destructor r = []) → p.Loses .expired p.expired (PoolM.evict nested p).2

/-- A slot has expired if it is idle and the policy evicts it at the next reading of the clock. -/
theorem mem_expired {s : Slot Nat} : s ∈ p.expired ↔
    s ∈ p.table.slots ∧ s.state = .idle ∧ p.bench.expires s = true := by
  rw [expired, (Table.removeIdleWhere_perm _ _).mem_iff, List.mem_filter, Bool.and_eq_true,
    beq_iff_eq]

/-- The number of a slot that has left the table is spent. -/
theorem Arises.isSpent (h : p.Arises) (hq : p.Steps q) {s : Slot Nat} (hs : s ∈ p.table.slots)
    (hno : ∀ s' ∈ q.table.slots, s'.id ≠ s.id) : q.IsSpent s.id := by
  refine ⟨Nat.lt_of_not_le fun hle => ?_, fun d hd => ?_⟩
  · have hcreated : p.times .created s.id = [s.createdAt] :=
      (h.isDated.slots s.dates (List.mem_map_of_mem hs)).created
    have hsuffix := hq.times_suffix .created s.id
    rw [hcreated, (h.steps hq).isDated.unborn .created s.id hle] at hsuffix
    exact List.cons_ne_nil _ _ (List.suffix_nil.1 hsuffix)
  · obtain ⟨s', hs', rfl⟩ := List.mem_map.1 hd
    exact hno s' hs'

/-- In every run, a cycle evicts what was unused for longer than the timeout. -/
theorem Arises.evictsUnused (h : p.Arises) {timeout : Duration} (hgo : p.careStops = false)
    (ht : p.config.eviction = .idleTimeout timeout) (budget : Nat) :
    p.EvictsUnused timeout (PoolM.run budget) := by
  have he : p.config.eviction.isEnabled = true := by
    rw [ht]
    rfl
  have hparts := p.prunes_ousted
  refine ⟨PoolM.runCare_eq_destroy hgo he _, fun s => ?_, hparts.slots, fun s hs hid => ?_,
    fun hp => (h.isExclusive.evict_loses hp he _).2.1⟩
  · rw [mem_expired]
    refine and_congr_right fun hmem => and_congr_right fun _ => ?_
    have hused : s.lastUsed = (p.times .freed s.id).headD s.createdAt :=
      (h.isDated.slots s.dates (List.mem_map_of_mem hmem)).used
    have hconfig : p.bench.config.eviction = .idleTimeout timeout := ht
    rw [Bench.expires, hconfig, ← hused]
    exact decide_eq_true_iff
  · have hspent : p.ousted.IsSpent s.id :=
      h.isSpent p.steps_ousted (mem_expired.1 hs).1 fun s' hs' =>
        (hparts.id_ne h.isExclusive.sound.nodup hs hs').symm
    have hcycle := (PoolM.nests_run budget).steps_careCycle h.isTame hgo he
    obtain ⟨s', hs', hsame⟩ := List.mem_map.1 hid
    exact (hcycle.isSpent (h.steps p.steps_ousted).isExclusive hspent).2 s'.dates
      (List.mem_map_of_mem hs') hsame

/-- The times of the slots mean what eviction takes them for.

At any moment of a run at which user code or a caller can look at the pool, a slot was created at
the time of its one creation, was last used when it was released last, or when it was created if it
never was, and was last found healthy when it was marked last, if it ever was. None of these times
is in the future, and no slot was used before it was created. Marks and healthy verdicts on access
or by the health-care job go together, and a slot is released only when its lease ends.

Whatever happens after that moment, a slot keeps the time of its creation, and no step moves the
time of its last use but the one that gives its ended lease back.

A cycle of the health-care job whose policy is an idle timeout evicts the idle slots for which more
than the timeout has passed since that release or creation, and no others. -/
theorem Surfaces.timestamps (h : p.Surfaces) :
    (∀ s ∈ p.table.slots, p.Dated s.dates) ∧
    p.IsMarked ∧
    (∀ x ∈ p.history, ∀ slot resource, x.entry = .freeing slot resource →
      .slot .release slot resource ∈ x.seen.holdings ∧
        ∀ s ∈ x.seen.table.slots, s.id = slot → s.state = .inUse) ∧
    (∀ q, p.Steps q → ∀ s ∈ p.table.slots, ∀ s' ∈ q.table.slots, s'.id = s.id →
      s'.createdAt = s.createdAt) ∧
    (∀ o q, p.Steps o → o.Step q → ∀ s ∈ o.table.slots, ∀ s' ∈ q.table.slots, s'.id = s.id →
      s'.lastUsed = s.lastUsed ∨
        ∃ lease : Lease, lease.slot = s.id ∧ q = (PoolM.giveBack lease o).2) ∧
    ∀ budget timeout, p.careStops = false → p.config.eviction = .idleTimeout timeout →
      p.EvictsUnused timeout (PoolM.run budget) := by
  have hp : p.Arises := h.arises
  refine ⟨fun s hs => hp.isDated.slots _ (List.mem_map_of_mem hs), h.isMarked, hp.freeing,
    fun q hq s hs s' hs' hid => ?_, fun o q ho hstep s hs s' hs' hid => ?_,
    fun budget timeout hgo ht => hp.evictsUnused hgo ht budget⟩
  · exact hp.isDated.createdAt_eq (hp.steps hq).isDated hq hs hs' hid
  · have hexclusive := (hp.steps ho).isExclusive
    exact (hstep.redates hexclusive).lastUsed_eq hexclusive.sound hs hs' hid

/-- One of two resources is checked, leased and released, and the check of the other one fails. An
idle timeout then evicts the slot that was never released, and not the older one. -/
theorem timestamps_idle_timeout :
    let failing : CheckRoutine := ⟨[], ⟨[], .answer (.error .abandoned)⟩⟩
    let user : UserCode :=
      { UserCode.plain with checkStyle := some .direct, checks := [(1, failing)] }
    let config : Config :=
      { desiredCount := 2
        careEnabled := true
        checkOnAccess := true
        eviction := .idleTimeout ⟨4000⟩ }
    let filled := (PoolM.run 3 .keeper (new "pool" config user)).2
    let checked := (PoolM.run 3 .care filled).2
    let leased := (PoolM.run 3 (.acquire "a") checked).2
    let p := (PoolM.run 3 (.drop "a") leased).2
    p.dates = [⟨1, 1000, 6000, some 5000⟩, ⟨2, 2000, 2000, none⟩] ∧
      (∀ s ∈ p.table.slots, p.Dated s.dates) ∧ p.IsMarked ∧
      p.expired.map (·.id) = [2] ∧ 2 ∉ (PoolM.careCycle (PoolM.run 2) p).2.table.ids := by
  intro failing user config filled checked leased p
  have huser : ∀ P : Op → Prop, user.Runs P := fun P =>
    { UserCode.plain_runs P with
      check := fun c hc op hop => by
        obtain rfl := List.mem_singleton.1 hc
        exact absurd hop List.not_mem_nil }
  have hstart : (new "pool" config user).Reachable := reachable_new "pool" _ (huser _) (by decide)
  have hfilled : filled.Reachable := hstart.next (.of_installs_eq_nil rfl rfl) (by decide +kernel)
  have hchecked : checked.Reachable :=
    hfilled.next (.of_installs_eq_nil rfl rfl) (by decide +kernel)
  have hleased : leased.Reachable :=
    hchecked.next (.of_installs_eq_nil rfl rfl) (by decide +kernel)
  have hp : p.Reachable := hleased.next (.of_installs_eq_nil rfl rfl) (by decide +kernel)
  obtain ⟨hdated, hmarked, -, -, -, hevicts⟩ := hp.surfaces.timestamps
  have hexpired : p.expired.map (·.id) = [2] := by decide +kernel
  have hmem : 2 ∈ p.expired.map (·.id) := hexpired ▸ List.mem_singleton_self 2
  obtain ⟨s, hs, hid⟩ := List.mem_map.1 hmem
  have hgone := (hevicts 2 ⟨4000⟩ (by decide +kernel) (by decide +kernel)).gone s hs
  rw [hid] at hgone
  exact ⟨by decide +kernel, hdated, hmarked, hexpired, hgone⟩

end Pool

end LeasePool
