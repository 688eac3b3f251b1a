import LeasePool.Proofs.Exclusive

/-!
# The ledger of slots

Slots get their numbers one after another, and a pool reports each one as created. The slots it has
reported are those in the table, those that running operations have taken out of it, and those it
has reported as destroyed, each of them once. The counters go along with the reports. Only a
destructor that panics makes a pool lose a slot that has left the table.
-/

namespace LeasePool

/-- The slot that an event reports as created. -/
def Event.created? : Event → Option Nat
  | resourceCreated slot _ => some slot
  | _ => none

/-- The slot that an event reports as destroyed, and why. -/
def Event.destroyed? : Event → Option (Nat × DestroyReason)
  | resourceDestroyed slot reason => some (slot, reason)
  | _ => none

/-- The event that an entry records, if it records one. -/
def Entry.event? : Entry → Option Event
  | .event e => some e
  | _ => none

/-- An entry records an event if it is that event. -/
theorem Entry.event?_eq_some {entry : Entry} {e : Event} :
    entry.event? = some e ↔ entry = .event e := by
  cases entry <;> simp [event?]

/-- The slot that a running operation has taken out of the table, and why. -/
def Holding.removed? : Holding → Option (Nat × DestroyReason)
  | removed reason s => some (s.id, reason)
  | _ => none

/-- What a pool has reported and counted of its slots: those created and those destroyed, the oldest
first, and the counters. -/
structure Books where
  created : List Nat
  destroyed : List (Nat × DestroyReason)
  totalCreated : UInt64
  totalDestroyed : UInt64
  evictions : UInt64

namespace Books

variable {b : Books} {t u : Table Nat} {leaving others : List (Nat × DestroyReason)}

/-- The slots created are numbered from one, and are those in the table, those leaving and those
destroyed. Each counter is the length of a list, modulo `2 ^ 64`. -/
structure Balances (b : Books) (t : Table Nat) (leaving : List (Nat × DestroyReason)) : Prop where
  numbered : b.created = List.range' 1 b.created.length
  next : t.nextId = b.created.length + 1
  slots : (t.ids ++ (leaving ++ b.destroyed).map (·.1)).Perm b.created
  totalCreated : b.totalCreated = .ofNat b.created.length
  totalDestroyed : b.totalDestroyed = .ofNat b.destroyed.length
  evictions : b.evictions = .ofNat (((leaving ++ b.destroyed).map (·.2)).count .expired)

/-- Only the numbers of the slots matter, and which slots are leaving. -/
theorem Balances.congr (h : b.Balances t leaving) (hi : u.ids = t.ids) (hn : u.nextId = t.nextId)
    (hl : leaving.Perm others) : b.Balances u others where
  numbered := h.numbered
  next := hn.trans h.next
  slots := by
    rw [hi]
    exact (((hl.symm.append_right _).map _).append_left _).trans h.slots
  totalCreated := h.totalCreated
  totalDestroyed := h.totalDestroyed
  evictions := by
    rw [h.evictions, ((hl.append_right b.destroyed).map _).count_eq]

/-- A new slot gets the next number. -/
theorem Balances.enter (h : b.Balances t leaving) (resource : Nat) (state : SlotState)
    (time : Instant) :
    { b with
      created := b.created ++ [t.nextId]
      totalCreated := b.totalCreated + 1 }.Balances (t.commit resource state time).2 leaving where
  numbered := by
    dsimp only
    rw [List.length_append, List.length_singleton, List.range'_1_concat, ← h.numbered, h.next,
      Nat.add_comm 1]
  next := by
    change t.nextId + 1 = _
    rw [h.next, List.length_append, List.length_singleton]
  slots := by
    have hids : (t.commit resource state time).2.ids = t.ids ++ [t.nextId] := List.map_append
    rw [hids]
    refine List.Perm.trans ?_ (h.slots.append_right [t.nextId])
    rw [List.append_assoc, List.append_assoc]
    exact List.perm_append_comm.append_left _
  totalCreated := by
    rw [List.length_append, h.totalCreated, UInt64.ofNat_add]
    rfl
  totalDestroyed := h.totalDestroyed
  evictions := h.evictions

/-- Slots leave the table. Those that have expired are counted. -/
theorem Balances.leave (h : b.Balances t leaving) {taken : List (Slot Nat)}
    (reason : DestroyReason) {evictions : UInt64} (hi : t.ids.Perm (taken.map (·.id) ++ u.ids))
    (hn : u.nextId = t.nextId)
    (he : evictions = b.evictions + .ofNat (if reason = .expired then taken.length else 0)) :
    { b with evictions }.Balances u
      (taken.map (fun s : Slot Nat => (s.id, reason)) ++ leaving) where
  numbered := h.numbered
  next := hn.trans h.next
  slots := by
    refine List.Perm.trans ?_ ((hi.append_right _).symm.trans h.slots)
    simp only [List.map_append, List.map_map, List.append_assoc]
    exact List.perm_append_comm_assoc ..
  totalCreated := h.totalCreated
  totalDestroyed := h.totalDestroyed
  evictions := by
    have hcount : ((taken.map fun s : Slot Nat => (s.id, reason)).map (·.2)).count .expired =
        if reason = .expired then taken.length else 0 := by
      simp only [List.map_map, Function.comp_def, List.map_const', List.count_replicate,
        beq_iff_eq]
    dsimp only
    rw [List.append_assoc, List.map_append, List.count_append, hcount, UInt64.ofNat_add, he,
      h.evictions, UInt64.add_comm]

/-- A slot that is leaving is destroyed. -/
theorem Balances.destroy {id : Nat} {reason : DestroyReason}
    (h : b.Balances t ((id, reason) :: leaving)) :
    { b with
      destroyed := b.destroyed ++ [(id, reason)]
      totalDestroyed := b.totalDestroyed + 1 }.Balances t leaving := by
  have hdeparted : (leaving ++ (b.destroyed ++ [(id, reason)])).Perm
      ((id, reason) :: leaving ++ b.destroyed) := by
    rw [← List.append_assoc]
    exact List.perm_append_singleton _ _
  exact
    { numbered := h.numbered
      next := h.next
      slots := ((hdeparted.map _).append_left _).trans h.slots
      totalCreated := h.totalCreated
      totalDestroyed := by
        dsimp only
        rw [List.length_append, UInt64.ofNat_add, h.totalDestroyed]
        rfl
      evictions := by
        dsimp only
        rw [(hdeparted.map _).count_eq, h.evictions] }

/-- No slot is created twice. -/
theorem Balances.nodup (h : b.Balances t leaving) : b.created.Nodup := by
  rw [h.numbered]
  exact List.nodup_range'

/-- When no slot is leaving, each slot created is in the table, or destroyed once. -/
theorem Balances.count_destroyed (h : b.Balances t []) {id : Nat} (hid : id ∈ b.created) :
    (b.destroyed.map (·.1)).count id = if id ∈ t.ids then 0 else 1 := by
  have hsum : t.ids.count id + (b.destroyed.map (·.1)).count id = 1 := by
    rw [← List.count_append, ← List.count_eq_one_of_mem h.nodup hid]
    exact h.slots.count_eq id
  split
  · next hmem =>
    have := List.count_pos_iff.2 hmem
    omega
  · next hmem =>
    have := List.count_eq_zero.2 hmem
    omega

/-- With nothing about to leave, what was created is in the table or destroyed. -/
theorem Balances.length_created (h : b.Balances t []) :
    b.created.length = t.slots.length + b.destroyed.length := by
  rw [← h.slots.length_eq, List.length_append, List.length_map]
  exact congrArg (· + _) (List.length_map _)

end Books

/-- Health checks are counted for themselves. -/
theorem PoolM.tallied_eq (t : Tally) (result : Except CheckError Verdict) :
    PoolM.tallied t result = { t with
      healthChecks := (PoolM.tallied t result).healthChecks
      healthCheckFailures := (PoolM.tallied t result).healthCheckFailures
      healthCheckErrors := (PoolM.tallied t result).healthCheckErrors } := by
  unfold PoolM.tallied
  split <;> rfl

namespace Pool

variable {p q : Pool}

/-- The reported events, the oldest first. -/
def events (p : Pool) : List Event := (p.history.filterMap (·.entry.event?)).reverse

/-- The books of a pool: its events, and the counters that should agree with them. -/
def books (p : Pool) : Books where
  created := p.events.filterMap Event.created?
  destroyed := p.events.filterMap Event.destroyed?
  totalCreated := p.tally.created
  totalDestroyed := p.tally.destroyed
  evictions := p.tally.evictions

/-- The slots that running operations have taken out of the table, and why. -/
def leaving (p : Pool) : List (Nat × DestroyReason) := p.holdings.filterMap Holding.removed?

/-- The books agree with each other, with the table, and with what is about to leave. -/
def IsBalanced (p : Pool) : Prop := p.books.Balances p.table p.leaving

/-- What an event adds to the books. -/
theorem books_note_event (p : Pool) (e : Event) :
    (p.note (.event e)).books = { p.books with
      created := p.books.created ++ e.created?.toList
      destroyed := p.books.destroyed ++ e.destroyed?.toList } := by
  have hevents : (p.note (.event e)).events = p.events ++ [e] := List.reverse_cons
  have hone : ∀ {α : Type} (f : Event → Option α), [e].filterMap f = (f e).toList := by
    intro α f
    cases he : f e with
    | none => exact List.filterMap_cons_none he
    | some a => exact List.filterMap_cons_some he
  simp only [books, hevents, List.filterMap_append, hone]
  rfl

/-- A remark adds nothing to the books. -/
theorem books_note_remark {e : Entry} (he : e.IsRemark) : (p.note e).books = p.books := by
  cases e with
  | event e =>
    rw [books_note_event]
    cases e with
    | resourceCreated | resourceDestroyed => exact he.elim
    | _ => simp only [Event.created?, Event.destroyed?, Option.toList_none, List.append_nil]
  | _ => rfl

namespace IsBalanced

/-- The books stay, and so do the slots and those that are leaving. -/
theorem aside (hp : p.IsBalanced) (hl : p.leaving.Perm q.leaving := by exact .refl _)
    (hb : q.books = p.books := by exact rfl) (hi : q.table.ids = p.table.ids := by exact rfl)
    (hn : q.table.nextId = p.table.nextId := by exact rfl) : q.IsBalanced := by
  rw [IsBalanced, hb]
  exact hp.congr hi hn hl

/-- A slot keeps its number when it is changed. -/
theorem modify (hp : p.IsBalanced) {id : Nat} {change : Slot Nat → Slot Nat}
    (ht : q.table = p.table.modify id change) (hc : ∀ s, (change s).id = s.id)
    (hl : p.leaving.Perm q.leaving := by exact .refl _) (hb : q.books = p.books := by exact rfl) :
    q.IsBalanced := by
  refine hp.aside hl hb ?_ ?_
  · rw [ht, Table.ids_modify hc]
  · rw [ht]
    rfl

end IsBalanced

/-- The running operation has taken slots out of the table. -/
theorem leaving_takeOut (reason : DestroyReason) (f : Table Nat → List (Slot Nat) × Table Nat)
    (p : Pool) : (PoolM.takeOut reason f p).2.leaving =
      (f p.table).1.map (fun s : Slot Nat => (s.id, reason)) ++ p.leaving := by
  change ((f p.table).1.map (Holding.removed reason) ++ p.holdings).filterMap _ = _
  rw [List.filterMap_append, List.filterMap_map]
  exact congrArg (· ++ p.leaving) (congrFun List.filterMap_eq_map _)

namespace IsBalanced

/-- Slots that leave the table are not counted unless they have expired. -/
theorem takeOut (hp : p.IsBalanced) (reason : DestroyReason) (hr : reason ≠ .expired)
    {f : Table Nat → List (Slot Nat) × Table Nat}
    (hi : p.table.ids.Perm ((f p.table).1.map (·.id) ++ (f p.table).2.ids))
    (hn : (f p.table).2.nextId = p.table.nextId) : (PoolM.takeOut reason f p).2.IsBalanced := by
  have hsame : p.books.evictions =
      p.books.evictions + .ofNat (if reason = .expired then (f p.table).1.length else 0) := by
    rw [if_neg hr]
    exact (UInt64.add_zero _).symm
  have hleft := hp.leave reason hi hn hsame
  rw [← leaving_takeOut] at hleft
  exact hleft

/-- A broken slot leaves the table, if it is still there. -/
theorem takeOutBroken (hp : p.IsBalanced) (tenure : Tenure) (id resource : Nat)
    {reason : DestroyReason} (hr : reason ≠ .expired) :
    (PoolM.takeOutBroken tenure id resource reason p).2.IsBalanced := by
  have hdisowned : (p.disown tenure id resource).IsBalanced :=
    hp.aside (filterMap_erase_none rfl p.holdings)
  rw [takeOutBroken_snd]
  exact hdisowned.takeOut reason hr (Table.map_invalidate (fun _ => rfl) _ _)
    (Table.nextId_invalidate _ _)

/-- Expired slots leave the table, and are counted. -/
theorem takeOutExpired (hp : p.IsBalanced) (f : Slot Nat → Bool) :
    (PoolM.takeOutExpired f p).2.IsBalanced := by
  have hprunes := Table.prunes_removeIdleWhere f p.table
  have hleft := hp.leave .expired (hprunes.map _) hprunes.nextId rfl
  rw [← leaving_takeOut .expired (·.removeIdleWhere f)] at hleft
  exact hleft

/-- A new slot is reported and counted. -/
theorem commit (hp : p.IsBalanced) (resource : Nat) (state : SlotState) (origin : Origin) :
    (PoolM.commit resource state origin p).2.IsBalanced := by
  have hleaving : p.leaving.Perm (PoolM.commit resource state origin p).2.leaving := by
    refine ((filterMap_erase_none (h := .product resource) rfl _).trans
      (filterMap_erase_none (h := .reservation) rfl _)).trans (.of_eq ?_)
    refine (filterMap_append_none (fun h hh => ?_) _).symm
    split at hh
    · rw [List.mem_singleton.1 hh]
      rfl
    · exact absurd hh List.not_mem_nil
  have hbooks : (PoolM.commit resource state origin p).2.books = { p.books with
      created := p.books.created ++ [p.table.nextId]
      totalCreated := p.books.totalCreated + 1 } := by
    refine (books_note_event _ (.resourceCreated p.table.nextId origin)).trans ?_
    simp only [Event.created?, Event.destroyed?, Option.toList_none, Option.toList_some,
      List.append_nil]
    rfl
  rw [IsBalanced, hbooks]
  exact (hp.enter resource state p.clock.read.now).congr rfl rfl hleaving

/-- A slot that has left the table is reported and counted as destroyed. -/
theorem destroyOne (hp : p.IsBalanced) {reason : DestroyReason} {s : Slot Nat}
    (hh : .removed reason s ∈ p.holdings) : (p.bury reason s).IsBalanced := by
  let reported := { p with tally := p.tally.bump .destroyed }.note
    (.event (.resourceDestroyed s.id reason))
  have hbooks : reported.books = { p.books with
      destroyed := p.books.destroyed ++ [(s.id, reason)]
      totalDestroyed := p.books.totalDestroyed + 1 } := by
    refine (books_note_event _ (.resourceDestroyed s.id reason)).trans ?_
    simp only [Event.created?, Event.destroyed?, Option.toList_none, Option.toList_some,
      List.append_nil]
    rfl
  have hleaving : p.leaving.Perm
      ((s.id, reason) :: (reported.unhold (.removed reason s)).leaving) :=
    filterMap_erase_some hh rfl
  have hdone := (hp.congr rfl rfl hleaving).destroy
  rw [← hbooks] at hdone
  rw [bury_eq]
  exact hdone

/-- Every step keeps the books balanced, unless a destructor panics. -/
theorem step (hp : p.IsBalanced) (hq : ¬q.HasCracked) (h : p.Step q) : q.IsBalanced := by
  have hsound : ¬p.HasCracked := mt (Steps.hasCracked (.single h)) hq
  cases h with
  | remark e he => exact hp.aside (.refl _) (books_note_remark he)
  | count c n hc =>
    refine hp.aside (.refl _) ?_
    cases c <;> first | rfl | exact hc.elim
  | conclude resource checker result =>
    refine hp.aside (.refl _) ?_
    change { p with tally := PoolM.tallied p.tally result }.books = _
    rw [PoolM.tallied_eq]
    rfl
  | commit resource state origin => exact hp.commit resource state origin
  | reserve origin wanted =>
    refine hp.aside (.of_eq (filterMap_append_none (fun h hh => ?_) _).symm)
    rw [List.eq_of_mem_replicate hh]
    rfl
  | unreserve | letGoHandle | countAcquired | beginLease | endLease =>
    exact hp.aside (filterMap_erase_none rfl p.holdings)
  | claim s t h =>
    obtain ⟨s', -, -, -, rfl⟩ := Table.claimIdle_eq_some h
    exact hp.modify rfl fun _ => rfl
  | park id s t h =>
    obtain ⟨s', -, -, -, -, rfl⟩ := Table.claimForCheck_eq_some h
    exact hp.modify rfl fun _ => rfl
  | confirm => exact hp.modify rfl fun _ => rfl
  | nameHandle name lease =>
    refine hp.aside ((filterMap_erase_none (h := .handle lease) rfl p.holdings).trans ?_)
    exact .of_eq (filterMap_handles (fun _ => rfl) _ _).symm
  | unnameHandle => exact hp.aside (.of_eq (filterMap_handles (fun _ => rfl) _ _).symm)
  | giveBack => exact hp.modify rfl (fun _ => rfl) (filterMap_erase_none rfl p.holdings)
  | reinstate => exact hp.modify rfl (PoolM.id_passed _) (filterMap_erase_none rfl p.holdings)
  | unpark => exact hp.modify rfl PoolM.id_unparked (filterMap_erase_none rfl p.holdings)
  | giveUp lease reason _ hr =>
    exact (hp.takeOutBroken .release lease.slot lease.resource hr).aside
  | takeOutBroken tenure id resource reason _ _ hr => exact hp.takeOutBroken tenure id resource hr
  | takeOutLru n =>
    have hprunes := Table.prunes_removeIdleLru n p.table
    exact hp.takeOut .surplus nofun (hprunes.map _) hprunes.nextId
  | takeOutExpired f => exact hp.takeOutExpired f
  | drain => exact hp.takeOut .shutdown nofun ((Table.prunes_drain _).map _) rfl
  | destroyOne reason s h => exact hp.destroyOne h
  | letGo h resource hk =>
    rw [discard_eq]
    refine hp.aside (filterMap_erase_none ?_ p.holdings)
    rcases hk with rfl | rfl <;> rfl
  | lose h rest resource hh _ hl =>
    rw [settle_eq]
    have hnone : h.removed? = none := by
      cases h with
      | removed => exact absurd hl hsound
      | _ => rfl
    refine hp.aside (.of_eq ?_)
    rw [leaving, hh]
    exact List.filterMap_cons_none hnone
  | _ => exact hp.aside

/-- The books of a new pool are empty. -/
theorem of_isNew (hp : p.IsNew) : p.IsBalanced := by
  obtain ⟨⟩ := hp
  exact ⟨rfl, rfl, .nil, rfl, rfl, rfl⟩

end IsBalanced

/-- The books balance at any moment of a run, for as long as no destructor panics. -/
theorem Arises.isBalanced (h : q.Arises) (hd : ¬q.HasCracked) : q.IsBalanced := by
  refine h.invariant (I := fun p => ¬p.HasCracked → p.IsBalanced) ?_ ?_ hd
  · exact fun p hp _ => .of_isNew hp
  · exact fun p q hp hs hq => (hp (mt (Steps.hasCracked (.single hs)) hq)).step hq hs

/-- The events of a pool are those that its history records. -/
theorem mem_events {e : Event} : e ∈ p.events ↔ ∃ r ∈ p.history, r.entry = .event e := by
  simp only [events, List.mem_reverse, List.mem_filterMap, Entry.event?_eq_some]

/-- The slots that the books have as created are those with an event. -/
theorem mem_created {id : Nat} :
    id ∈ p.books.created ↔ ∃ origin, .resourceCreated id origin ∈ p.events := by
  simp only [books, List.mem_filterMap]
  constructor
  · rintro ⟨e, he, hid⟩
    cases e with
    | resourceCreated slot origin =>
      obtain rfl := Option.some.inj hid
      exact ⟨origin, he⟩
    | _ => cases hid
  · exact fun ⟨origin, he⟩ => ⟨_, he, rfl⟩

/-- A slot has been in the table at some moment that can be seen. -/
def HasEntered (p : Pool) (id : Nat) : Prop :=
  ∃ t ∈ p.table :: p.history.map (·.seen.table), id ∈ t.ids

/-- The slots that have been in the table are those reported as created. -/
theorem Arises.hasEntered_iff (h : q.Arises) (hd : ¬q.HasCracked) (id : Nat) :
    q.HasEntered id ↔ id ∈ q.books.created := by
  have hsub : ∀ p : Pool, p.Arises → p.Steps q → id ∈ p.table.ids → id ∈ q.books.created := by
    intro p hp hpq hid
    have hbalanced := hp.isBalanced (mt hpq.hasCracked hd)
    obtain ⟨origin, he⟩ := mem_created.1 (hbalanced.slots.mem_iff.1 (List.mem_append_left _ hid))
    obtain ⟨r, hr, hre⟩ := mem_events.1 he
    exact mem_created.2 ⟨origin, mem_events.2 ⟨r, hpq.history_suffix.subset hr, hre⟩⟩
  constructor
  · rintro ⟨t, ht, hid⟩
    rcases List.mem_cons.1 ht with rfl | ht
    · exact hsub q h .refl hid
    · obtain ⟨r, hr, rfl⟩ := List.mem_map.1 ht
      obtain ⟨p, hp, hpq, hseen⟩ := h.exists_seen r hr
      rw [hseen] at hid
      exact hsub p hp hpq hid
  · intro hid
    obtain ⟨origin, he⟩ := mem_created.1 hid
    obtain ⟨r, hr, hre⟩ := mem_events.1 he
    obtain ⟨later, earlier, hsplit⟩ := List.append_of_mem hr
    obtain ⟨p, -, -, hj, -⟩ := h.exists_writer hsplit
    unfold Justifies at hj
    rw [hre] at hj
    obtain ⟨-, s, hs, hslot⟩ := hj
    exact ⟨r.seen.table, List.mem_cons_of_mem _ (List.mem_map_of_mem hr),
      List.mem_map.2 ⟨s, hs, hslot⟩⟩

/-- The events reported before one are those of the earlier part of the history. -/
theorem exists_of_events_eq {before after : List Event} {e : Event}
    (h : p.events = before ++ e :: after) : ∃ later earlier r, p.history = later ++ r :: earlier ∧
      r.entry = .event e ∧ ∀ r ∈ earlier, ∀ e, r.entry = .event e → e ∈ before := by
  have hreverse : p.history.filterMap (·.entry.event?) = after.reverse ++ e :: before.reverse := by
    rw [← List.reverse_reverse (p.history.filterMap _), ← events, h]
    simp
  obtain ⟨later, rest, hhistory, -, hrest⟩ := List.filterMap_eq_append_iff.1 hreverse
  obtain ⟨skipped, r, earlier, rfl, -, hr, hearlier⟩ := List.filterMap_eq_cons_iff.1 hrest
  refine ⟨later ++ skipped, earlier, r, ?_, Entry.event?_eq_some.1 hr, fun r' hr' e' he' => ?_⟩
  · rw [hhistory, List.append_assoc]
  · rw [← List.mem_reverse, ← hearlier]
    exact List.mem_filterMap.2 ⟨r', hr', Entry.event?_eq_some.2 he'⟩

/-- The creation of a slot is reported before its destruction, and so is the check that an unhealthy
one has failed. -/
theorem Arises.events_before (h : q.Arises) (hd : ¬q.HasCracked) {before after : List Event}
    {id : Nat} {reason : DestroyReason}
    (he : q.events = before ++ .resourceDestroyed id reason :: after) :
    (∃ origin, .resourceCreated id origin ∈ before) ∧
      (reason = .unhealthy → ∃ why, .healthCheckFailed id why ∈ before) := by
  obtain ⟨later, earlier, r, hsplit, hr, hbefore⟩ := exists_of_events_eq he
  obtain ⟨p, hp, hpq, hj, same, rfl, -⟩ := h.exists_writer hsplit
  unfold Justifies at hj
  rw [hr] at hj
  obtain ⟨⟨s, rfl, hs⟩, hfailed⟩ := hj
  constructor
  · have hbalanced := hp.isBalanced (mt hpq.hasCracked hd)
    have hleaving : (s.id, reason) ∈ p.leaving := List.mem_filterMap.2 ⟨_, hs, rfl⟩
    have hid : s.id ∈ p.books.created := by
      refine hbalanced.slots.mem_iff.1 (List.mem_append_right _ ?_)
      exact List.mem_map.2 ⟨_, List.mem_append_left _ hleaving, rfl⟩
    obtain ⟨origin, he⟩ := mem_created.1 hid
    obtain ⟨r', hr', hre⟩ := mem_events.1 he
    exact ⟨origin, hbefore r' (List.mem_append_right _ hr') _ hre⟩
  · intro hreason
    obtain ⟨r', hr', why, hre⟩ := hfailed hreason
    exact ⟨why, hbefore r' (List.mem_append_right _ hr') _ hre⟩

/-- Between operations, if no destructor has panicked, each slot that has ever been in the table was
reported as created exactly once, and as destroyed exactly once if it is no longer there and never
otherwise. No other slot was reported. The creation of a slot is reported before its destruction,
and so is the check that an unhealthy one has failed. The counters count these reports modulo
`2 ^ 64`, so that their difference is the number of slots, and evictions are the expired ones. -/
theorem Reachable.ledger (h : q.Reachable) (hd : ¬q.HasCracked) :
    (∀ id, q.HasEntered id → q.books.created.count id = 1 ∧
      (q.books.destroyed.map (·.1)).count id = if id ∈ q.table.ids then 0 else 1) ∧
    (∀ id, ¬q.HasEntered id → id ∉ q.books.created ∧ id ∉ q.books.destroyed.map (·.1)) ∧
    (∀ before after id reason, q.events = before ++ .resourceDestroyed id reason :: after →
      (∃ origin, .resourceCreated id origin ∈ before) ∧
        (reason = .unhealthy → ∃ why, .healthCheckFailed id why ∈ before)) ∧
    q.tally.created = .ofNat q.books.created.length ∧
    q.tally.destroyed = .ofNat q.books.destroyed.length ∧
    q.books.created.length = q.table.slots.length + q.books.destroyed.length ∧
    q.tally.created - q.tally.destroyed = .ofNat q.table.slots.length ∧
    q.tally.evictions = .ofNat ((q.books.destroyed.map (·.2)).count .expired) := by
  have hbalances : q.books.Balances q.table [] := by
    have hbalanced := h.arises.isBalanced hd
    rwa [IsBalanced, leaving, h.idle.2] at hbalanced
  have hlength := hbalances.length_created
  have hcreated : q.tally.created = .ofNat q.books.created.length := hbalances.totalCreated
  have hdestroyed : q.tally.destroyed = .ofNat q.books.destroyed.length := hbalances.totalDestroyed
  refine ⟨fun id hid => ?_, fun id hid => ?_, fun before after id reason he => ?_, hcreated,
    hdestroyed, hlength, ?_, hbalances.evictions⟩
  · have hmem := (h.arises.hasEntered_iff hd id).1 hid
    exact ⟨List.count_eq_one_of_mem hbalances.nodup hmem, hbalances.count_destroyed hmem⟩
  · have hmem := mt (h.arises.hasEntered_iff hd id).2 hid
    exact ⟨hmem, fun hgone => hmem (hbalances.slots.mem_iff.1 (List.mem_append_right _ hgone))⟩
  · exact h.arises.events_before hd he
  · rw [hcreated, hdestroyed, hlength, UInt64.ofNat_add, UInt64.add_sub_cancel]

/-- The check on release drains the pool and finds the resource unhealthy. Its slot is destroyed by
the drain and not a second time. -/
theorem ledger_check_drains :
    let user : UserCode :=
      { UserCode.plain with
        checkStyle := some .direct
        checkDefault := ⟨[], ⟨[.drain], .answer (.ok (.unhealthy "worn"))⟩⟩ }
    let acquired := (PoolM.run 3 (.acquire "a") (new "pool" { checkOnRelease := true } user)).2
    let q := (PoolM.run 3 (.drop "a") acquired).2
    ¬q.HasCracked ∧ q.HasEntered 1 ∧ (q.books.destroyed.map (·.1)).count 1 = 1 ∧
      q.tally.created - q.tally.destroyed = 0 := by
  intro user acquired q
  have huser : user.IsPublic :=
    { UserCode.plain_runs _ with
      checkDefault := List.forall_mem_singleton.2 (.of_installs_eq_nil rfl rfl) }
  have hstart : (new "pool" { checkOnRelease := true } user).Reachable :=
    reachable_new "pool" _ huser (by decide)
  have hacquired : acquired.Reachable :=
    hstart.next (.of_installs_eq_nil rfl rfl) (by decide +kernel)
  have hq : q.Reachable := hacquired.next (.of_installs_eq_nil rfl rfl) (by decide +kernel)
  have hsound : ¬q.HasCracked := by decide +kernel
  have hentered : q.HasEntered 1 := ⟨acquired.table, by decide +kernel, by decide +kernel⟩
  have hgone : 1 ∉ q.table.ids := by decide +kernel
  have hslots : q.table.slots = [] := by decide +kernel
  obtain ⟨hevents, -, -, -, -, -, hdifference, -⟩ := hq.ledger hsound
  refine ⟨hsound, hentered, ?_, ?_⟩
  · rw [(hevents 1 hentered).2, if_neg hgone]
  · rw [hdifference, hslots]
    rfl

end Pool

end LeasePool
