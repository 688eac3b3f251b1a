import LeasePool.Proofs.History

/-!
# Handles and their leases

A lease lives for as long as it has a handle. The handle has a name, or a running operation holds
it. Names are taken only once, and so are the numbers of leases.
-/

namespace LeasePool.Pool

variable {p q : Pool}

/-- The leases are those with a handle, and each of them can be told by its number. -/
structure IsLinked (p : Pool) : Prop where
  names : (p.handles.map (·.1)).Nodup
  ids : (p.leases.map (·.id)).Nodup
  fresh : ∀ l ∈ p.leases, l.id < p.nextLease
  handled : ∀ id, p.HasHandle id ↔ ∃ l ∈ p.leases, l.id = id

/-- In a list of pairs with different keys, looking up a key finds its only pair. -/
theorem lookup_eq_some_iff_mem {handles : List (String × Nat)} (hn : (handles.map (·.1)).Nodup)
    {name : String} {id : Nat} : handles.lookup name = some id ↔ (name, id) ∈ handles := by
  constructor
  · intro h
    obtain ⟨before, after, rfl, -⟩ := List.lookup_eq_some_iff.1 h
    exact List.mem_append_right _ List.mem_cons_self
  · intro h
    obtain ⟨before, after, rfl⟩ := List.append_of_mem h
    refine List.lookup_eq_some_iff.2 ⟨before, after, rfl, fun other hother => bne_iff_ne.2 ?_⟩
    rw [List.map_append, List.map_cons] at hn
    have hdisjoint := (List.nodup_append.1 hn).2.2 other.1 (List.mem_map_of_mem hother)
    exact (hdisjoint name List.mem_cons_self).symm

/-- Taking a name off a handle leaves the names of the others. -/
theorem nodup_filter_name {handles : List (String × Nat)} (hn : (handles.map (·.1)).Nodup)
    (name : String) : ((handles.filter (·.1 != name)).map (·.1)).Nodup :=
  hn.sublist (List.filter_sublist.map _)

/-- A handle whose name is taken off is not lost: it is the one that the name stood for. -/
theorem exists_name_iff {handles : List (String × Nat)} (hn : (handles.map (·.1)).Nodup)
    (name : String) (id : Nat) : (∃ other, (other, id) ∈ handles) ↔
      (∃ other, (other, id) ∈ handles.filter (·.1 != name)) ∨ handles.lookup name = some id := by
  rw [lookup_eq_some_iff_mem hn]
  simp only [List.mem_filter, bne_iff_ne]
  constructor
  · rintro ⟨other, h⟩
    by_cases he : other = name
    · exact .inr (he ▸ h)
    · exact .inl ⟨other, h, he⟩
  · rintro (⟨other, h, -⟩ | h)
    · exact ⟨other, h⟩
    · exact ⟨name, h⟩

/-- A named handle, or none, is put in place of a handle on the stack or of none. -/
theorem IsLinked.rename (hp : p.IsLinked) (hl : q.leases = p.leases)
    (hf : q.nextLease = p.nextLease) (hn : (q.handles.map (·.1)).Nodup)
    (hh : ∀ id, q.HasHandle id ↔ p.HasHandle id) : q.IsLinked where
  names := hn
  ids := hl ▸ hp.ids
  fresh := by
    rw [hl, hf]
    exact hp.fresh
  handled id := by
    rw [hh, hl]
    exact hp.handled id

/-- The handles and leases stay. What else is held has no part in it. -/
theorem IsLinked.of_holdings (hp : p.IsLinked) (hn : q.handles = p.handles)
    (hl : q.leases = p.leases) (hf : q.nextLease = p.nextLease)
    (hh : ∀ id, .handle id ∈ q.holdings ↔ .handle id ∈ p.holdings) : q.IsLinked := by
  refine hp.rename hl hf (hn ▸ hp.names) fun id => ?_
  rw [HasHandle, HasHandle, hn, hh]

/-- Another holding brings no handle. -/
theorem handle_mem_hold {h : Holding} (hh : ∀ id, h ≠ .handle id) (id : Nat) :
    .handle id ∈ (p.hold h).holdings ↔ .handle id ∈ p.holdings := by
  rw [hold, List.mem_cons]
  exact or_iff_right fun he => hh id he.symm

/-- Putting another holding away takes no handle away. -/
theorem handle_mem_unhold {h : Holding} (hh : ∀ id, h ≠ .handle id) (id : Nat) :
    .handle id ∈ (p.unhold h).holdings ↔ .handle id ∈ p.holdings :=
  List.mem_erase_of_ne (hh id).symm

/-- Exchanging other holdings keeps the handles. -/
theorem handle_mem_exchange {h other : Holding} (hh : ∀ id, h ≠ .handle id)
    (ho : ∀ id, other ≠ .handle id) (id : Nat) :
    .handle id ∈ (p.exchange h other).holdings ↔ .handle id ∈ p.holdings :=
  (handle_mem_hold ho id).trans (handle_mem_unhold hh id)

/-- Further holdings that are not the handle do not bring it. -/
theorem handle_mem_append {K H : List Holding} {id : Nat} (hK : .handle id ∉ K) :
    .handle id ∈ K ++ H ↔ .handle id ∈ H := by
  rw [List.mem_append]
  exact or_iff_right hK

/-- Slots that were taken out bring no handle. -/
theorem handle_mem_removed {reason : DestroyReason} {slots : List (Slot Nat)} {H : List Holding}
    (id : Nat) : .handle id ∈ slots.map (Holding.removed reason) ++ H ↔ .handle id ∈ H :=
  handle_mem_append (by simp)

/-- A name is given to a handle of the running operation, which then holds the handle that had the
name before. -/
theorem IsLinked.nameHandle (hp : p.IsLinked) {name : String} {lease : Nat}
    (h : .handle lease ∈ p.holdings) : (PoolM.nameHandle name lease p).2.IsLinked := by
  refine hp.rename rfl rfl ?_ fun id => ?_
  · refine List.nodup_cons.2 ⟨fun hmem => ?_, nodup_filter_name hp.names name⟩
    obtain ⟨other, hother, he⟩ := List.mem_map.1 hmem
    exact bne_iff_ne.1 (List.mem_filter.1 hother).2 he
  · change (∃ other, (other, id) ∈ (name, lease) :: p.handles.filter (·.1 != name)) ∨
      .handle id ∈ (p.handles.lookup name).toList.map Holding.handle ++
        p.holdings.erase (.handle lease) ↔ _
    rw [HasHandle, exists_name_iff hp.names name id]
    by_cases hid : id = lease
    · subst hid
      exact iff_of_true (.inl ⟨name, List.mem_cons_self⟩) (.inr h)
    · have herase : .handle id ∈ p.holdings.erase (.handle lease) ↔ .handle id ∈ p.holdings :=
        List.mem_erase_of_ne fun he => hid (Holding.handle.inj he)
      simp [hid, herase, or_assoc]

/-- The name is taken off a handle, which the running operation then holds. -/
theorem IsLinked.unnameHandle (hp : p.IsLinked) (name : String) :
    (PoolM.unnameHandle name p).2.IsLinked := by
  refine hp.rename rfl rfl (nodup_filter_name hp.names name) fun id => ?_
  change (∃ other, (other, id) ∈ p.handles.filter (·.1 != name)) ∨
    .handle id ∈ (p.handles.lookup name).toList.map Holding.handle ++ p.holdings ↔ _
  rw [HasHandle, exists_name_iff hp.names name id]
  simp [or_assoc]

/-- A lease begins with one handle. -/
theorem IsLinked.beginLease (hp : p.IsLinked) (id resource : Nat) :
    (PoolM.beginLease id resource p).2.IsLinked where
  names := hp.names
  ids := by
    refine List.nodup_cons.2 ⟨fun hmem => ?_, hp.ids⟩
    obtain ⟨l, hl, he⟩ := List.mem_map.1 hmem
    exact Nat.lt_irrefl _ (he ▸ hp.fresh l hl)
  fresh l hl := by
    rcases List.mem_cons.1 hl with rfl | hl
    · exact Nat.lt_succ_self _
    · exact Nat.lt_succ_of_lt (hp.fresh l hl)
  handled i := by
    have hold := hp.handled i
    have hmem : .handle i ∈ (PoolM.beginLease id resource p).2.holdings ↔
        i = p.nextLease ∨ .handle i ∈ p.holdings := by
      change .handle i ∈
        Holding.handle p.nextLease :: p.holdings.erase (.slot .handOver id resource) ↔ _
      rw [List.mem_cons, Holding.handle.injEq, List.mem_erase_of_ne (by simp)]
    change (∃ name, (name, i) ∈ p.handles) ∨ _ ↔ ∃ l ∈ _ :: p.leases, l.id = i
    rw [HasHandle] at hold
    simp only [hmem, List.exists_mem_cons_iff, ← hold, eq_comm (a := i)]
    exact or_left_comm

/-- A handle is cloned. -/
theorem IsLinked.cloneHandle (hp : p.IsLinked) {l : Lease} (hl : l ∈ p.leases) :
    (p.hold (.handle l.id)).IsLinked := by
  refine hp.rename rfl rfl hp.names fun id => ?_
  by_cases hid : id = l.id
  · subst hid
    exact iff_of_true (.inr List.mem_cons_self) ((hp.handled l.id).2 ⟨l, hl, rfl⟩)
  · refine or_congr_right (List.mem_cons.trans (or_iff_right fun he => hid ?_))
    exact Holding.handle.inj he

/-- A handle is let go of that is not the last one of a lease. -/
theorem IsLinked.letGoHandle (hp : p.IsLinked) {lease : Nat} (h : .handle lease ∈ p.holdings)
    (ho : (p.unhold (.handle lease)).HasHandle lease ∨ ∀ l ∈ p.leases, l.id ≠ lease) :
    (p.unhold (.handle lease)).IsLinked := by
  have hother : (p.unhold (.handle lease)).HasHandle lease := by
    rcases ho with ho | ho
    · exact ho
    · obtain ⟨l, hl, he⟩ := (hp.handled lease).1 (.inr h)
      exact absurd he (ho l hl)
  refine hp.rename rfl rfl hp.names fun id => ?_
  by_cases hid : id = lease
  · subst hid
    exact iff_of_true hother (.inr h)
  · exact or_congr_right (List.mem_erase_of_ne fun he => hid (Holding.handle.inj he))

/-- A lease ends with its last handle. -/
theorem IsLinked.endLease (hp : p.IsLinked) {l : Lease} (hl : l ∈ p.leases)
    (ho : ¬(p.unhold (.handle l.id)).HasHandle l.id) :
    ({ p.unhold (.handle l.id) with leases := p.leases.erase l }.hold
      (.slot .release l.slot l.resource)).IsLinked where
  names := hp.names
  ids := hp.ids.sublist (List.erase_sublist.map _)
  fresh l' hl' := hp.fresh l' (List.mem_of_mem_erase hl')
  handled id := by
    have hhandle : ({ p.unhold (.handle l.id) with leases := p.leases.erase l }.hold
        (.slot .release l.slot l.resource)).HasHandle id ↔
          (p.unhold (.handle l.id)).HasHandle id :=
      or_congr_right (handle_mem_hold (by simp) id)
    rw [hhandle]
    have hnodup : p.leases.Nodup := hp.ids.of_map
    by_cases hid : id = l.id
    · subst hid
      refine iff_of_false ho ?_
      rintro ⟨l', hl', he⟩
      obtain ⟨hne, hmem⟩ := hnodup.mem_erase_iff.1 hl'
      exact hne (List.inj_on_of_nodup_map hp.ids hmem hl he)
    · have herase : (p.unhold (.handle l.id)).HasHandle id ↔ p.HasHandle id :=
        or_congr_right (List.mem_erase_of_ne fun he => hid (Holding.handle.inj he))
      rw [herase, hp.handled]
      refine exists_congr fun l' => and_congr_left fun he => ?_
      refine (List.mem_erase_of_ne fun heq => hid ?_).symm
      rw [← he, heq]

/-- Every step keeps the leases those with a handle. -/
theorem IsLinked.step (hp : p.IsLinked) (h : p.Step q) : q.IsLinked := by
  cases h with
  | invalidateLease id =>
    have hids : ((PoolM.invalidateLease id p).2.leases.map (·.id)) = p.leases.map (·.id) := by
      change (p.leases.map _).map _ = _
      rw [List.map_map]
      refine List.map_congr_left fun l _ => ?_
      simp only [Function.comp_apply]
      split <;> rfl
    have hmem : ∀ i, (∃ l ∈ (PoolM.invalidateLease id p).2.leases, l.id = i) ↔
        ∃ l ∈ p.leases, l.id = i := fun i => by
      rw [← List.mem_map, hids, List.mem_map]
    refine ⟨hp.names, hids ▸ hp.ids, fun l hl => ?_, fun i => (hp.handled i).trans (hmem i).symm⟩
    obtain ⟨l', hl', he⟩ := (hmem l.id).1 ⟨l, hl, rfl⟩
    exact he ▸ hp.fresh l' hl'
  | beginLease id resource => exact hp.beginLease id resource
  | nameHandle name lease h => exact hp.nameHandle h
  | unnameHandle name => exact hp.unnameHandle name
  | cloneHandle l h => exact hp.cloneHandle h
  | letGoHandle lease h ho => exact hp.letGoHandle h ho
  | endLease l h _ ho => exact hp.endLease h ho
  | make | refer | claim | park =>
    exact hp.of_holdings rfl rfl rfl (handle_mem_hold (by simp))
  | reserve => exact hp.of_holdings rfl rfl rfl fun _ => handle_mem_append (by simp)
  | unreserve => exact hp.of_holdings rfl rfl rfl (handle_mem_unhold (by simp))
  | commit resource state origin =>
    refine hp.of_holdings rfl rfl rfl fun id => ?_
    have hleft : .handle id ∈ ((p.unhold (.product resource)).unhold .reservation).holdings ↔
        .handle id ∈ p.holdings :=
      (handle_mem_unhold (by simp) id).trans (handle_mem_unhold (by simp) id)
    refine (handle_mem_append ?_).trans hleft
    split <;> simp
  | countAcquired | giveBack | reinstate | unpark =>
    exact hp.of_holdings rfl rfl rfl (handle_mem_exchange (by simp) (by simp))
  | giveUp lease =>
    exact hp.of_holdings rfl rfl rfl fun id => (handle_mem_removed id).trans
      (handle_mem_exchange (h := .slot .release lease.slot lease.resource) (by simp) (by simp) id)
  | takeOutBroken tenure i resource =>
    exact hp.of_holdings rfl rfl rfl fun id => (handle_mem_removed id).trans
      (handle_mem_exchange (h := .slot tenure i resource) (by simp) (by simp) id)
  | takeOutLru | takeOutExpired | drain =>
    exact hp.of_holdings rfl rfl rfl fun id => handle_mem_removed id
  | destroyOne =>
    rw [bury_eq]
    exact hp.of_holdings rfl rfl rfl (handle_mem_unhold (by simp))
  | letGo h resource hk =>
    rw [discard_eq]
    refine hp.of_holdings rfl rfl rfl (handle_mem_unhold ?_)
    rcases hk with rfl | rfl <;> simp
  | lose h rest resource hh hr =>
    rw [settle_eq]
    refine hp.of_holdings rfl rfl rfl fun id => ?_
    rw [hh, List.mem_cons]
    refine (or_iff_right fun he => ?_).symm
    rw [← he] at hr
    cases hr
  | _ => exact hp.of_holdings rfl rfl rfl fun _ => .rfl

/-- A new pool has neither leases nor handles. -/
theorem IsLinked.of_isNew (hp : p.IsNew) : p.IsLinked := by
  obtain ⟨⟩ := hp
  refine ⟨.nil, .nil, fun _ hl => absurd hl List.not_mem_nil, fun id => iff_of_false ?_ ?_⟩
  · rintro (⟨_, h⟩ | h) <;> exact List.not_mem_nil h
  · rintro ⟨_, h, -⟩
    exact List.not_mem_nil h

/-- Leases and handles go together after each operation of a run. -/
theorem Occurs.isLinked (h : q.Occurs) : q.IsLinked :=
  h.invariant (fun _ => IsLinked.of_isNew) fun _ _ => IsLinked.step

/-- Between operations the leases are those with a named handle. -/
theorem Reachable.exists_lease_iff (h : p.Reachable) (id : Nat) :
    (∃ l ∈ p.leases, l.id = id) ↔ ∃ name, (name, id) ∈ p.handles := by
  rw [← h.occurs.isLinked.handled, HasHandle, h.idle.2]
  exact or_iff_left List.not_mem_nil

end LeasePool.Pool
