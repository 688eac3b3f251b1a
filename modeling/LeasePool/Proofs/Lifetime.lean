import LeasePool.Proofs.Handles
import LeasePool.Proofs.Exclusive
import LeasePool.Proofs.Shutdown

/-!
# Exact lifetime of resources

A resource that the factory has made is destroyed as soon as nothing keeps it any more, and only
then. Between operations only slots, leases and workers that stay silent keep resources.
-/

namespace LeasePool

namespace Table

variable {t u : Table Nat}

/-- The resources of the slots, in table order. -/
def resources (t : Table Nat) : List Nat := t.slots.map (·.resource)

/-- Changing a slot leaves its resource. -/
theorem resources_modify {id : Nat} {change : Slot Nat → Slot Nat}
    (hr : ∀ s, (change s).resource = s.resource) :
    (t.modify id change).resources = t.resources :=
  map_modify hr

/-- The resources of slots that are taken out are those that the table loses. -/
theorem Prunes.resources {taken : List (Slot Nat)} (h : t.Prunes u taken) :
    t.resources.Perm (taken.map (·.resource) ++ u.resources) :=
  h.map _

/-- A broken slot that leaves the table takes its resource along. -/
theorem resources_invalidate (t : Table Nat) (id : Nat) :
    t.resources.Perm
      ((t.invalidate id).1.toList.map (·.resource) ++ (t.invalidate id).2.resources) :=
  map_invalidate (fun _ => rfl) t id

end Table

theorem mem_filterMap_cons {α β : Type} {f : α → Option β} {a : α} {l : List α} {b : β} :
    b ∈ (a :: l).filterMap f ↔ f a = some b ∨ b ∈ l.filterMap f := by
  rw [List.mem_filterMap, List.exists_mem_cons_iff, ← List.mem_filterMap]

namespace Pool

variable {p q : Pool} {h : Holding} {r : Nat}

/-- What keeps resources alive: slots, leases, running operations and silent workers. -/
def kept (p : Pool) : List Nat :=
  p.table.resources ++ (p.leases.map (·.resource) ++
    (p.holdings.filterMap Holding.resource? ++ p.stuck))

/-- The resources that live on are those that something keeps. -/
theorem isHeld_iff_mem_kept (p : Pool) (r : Nat) : p.isHeld r = true ↔ r ∈ p.kept := by
  simp only [isHeld_iff, kept, Table.resources, List.mem_append, List.mem_map, List.mem_filterMap]

/-- A holding keeps its resource. -/
theorem mem_kept_hold : r ∈ (p.hold h).kept ↔ h.resource? = some r ∨ r ∈ p.kept := by
  simp only [kept, hold, List.mem_append, mem_filterMap_cons]
  tauto

/-- A holding of the running operation keeps a resource. -/
theorem mem_kept_unhold {x : Nat} (hh : h ∈ p.holdings) (hx : h.resource? = some x) :
    r ∈ p.kept ↔ r = x ∨ r ∈ (p.unhold h).kept := by
  have hmem := (filterMap_erase_some hh hx).mem_iff (a := r)
  simp only [kept, unhold, List.mem_append, hmem, List.mem_cons]
  tauto

/-- A holding without a resource keeps none. -/
theorem mem_kept_unhold_none (hx : h.resource? = none) :
    r ∈ (p.unhold h).kept ↔ r ∈ p.kept := by
  have hmem := (filterMap_erase_none hx p.holdings).mem_iff (a := r)
  simp only [kept, unhold, List.mem_append, hmem]

/-- A resource is kept in another way. -/
theorem mem_kept_exchange {other : Holding} {x : Nat} (hh : h ∈ p.holdings)
    (hx : h.resource? = some x) (ho : other.resource? = some x) :
    r ∈ (p.exchange h other).kept ↔ r ∈ p.kept := by
  rw [exchange, mem_kept_hold, ho, mem_kept_unhold hh hx, Option.some.injEq, eq_comm]

/-- Without a lease, its resource is kept only by what else has it. -/
theorem mem_kept_erase {l : Lease} (hl : l ∈ p.leases) :
    r ∈ p.kept ↔ r = l.resource ∨ r ∈ { p with leases := p.leases.erase l }.kept := by
  have hmem := ((List.perm_cons_erase hl).map Lease.resource).mem_iff (a := r)
  rw [List.map_cons] at hmem
  simp only [kept, List.mem_append, hmem, List.mem_cons]
  tauto

/-- What is kept can be told from the resources of the slots and leases, the stack and the silent
workers. -/
theorem kept_congr (ht : q.table.resources = p.table.resources)
    (hl : q.leases.map (·.resource) = p.leases.map (·.resource) := by exact rfl)
    (hh : q.holdings.filterMap Holding.resource? = p.holdings.filterMap Holding.resource? :=
      by exact rfl)
    (hs : q.stuck = p.stuck := by exact rfl) : q.kept = p.kept := by
  rw [kept, kept, ht, hl, hh, hs]

/-- Slots that leave the table are kept by the running operation. -/
theorem mem_kept_takeOut {reason : DestroyReason} {f : Table Nat → List (Slot Nat) × Table Nat}
    (hf : p.table.resources.Perm ((f p.table).1.map (·.resource) ++ (f p.table).2.resources)) :
    r ∈ (PoolM.takeOut reason f p).2.kept ↔ r ∈ p.kept := by
  have hmem := hf.mem_iff (a := r)
  have hremoved : ((f p.table).1.map (Holding.removed reason)).filterMap Holding.resource? =
      (f p.table).1.map (·.resource) := by
    rw [List.filterMap_map]
    exact congrFun List.filterMap_eq_map _
  change r ∈ (f p.table).2.resources ++ (p.leases.map (·.resource) ++
    (((f p.table).1.map (Holding.removed reason) ++ p.holdings).filterMap Holding.resource? ++
      p.stuck)) ↔ _
  rw [List.filterMap_append, hremoved]
  simp only [kept, List.mem_append, hmem]
  tauto

/-- A broken slot that leaves the table is kept by the running operation, and so is its resource. -/
theorem mem_kept_takeOutBroken {tenure : Tenure} {id resource : Nat} {reason : DestroyReason}
    (hh : .slot tenure id resource ∈ p.holdings) :
    r ∈ (PoolM.takeOutBroken tenure id resource reason p).2.kept ↔ r ∈ p.kept := by
  rw [takeOutBroken_snd, mem_kept_takeOut (p.table.resources_invalidate id)]
  exact mem_kept_exchange hh rfl rfl

/-- What a lease or a slot of the table keeps can be kept by the running operation as well. -/
theorem mem_kept_hold_of_mem {x : Nat} (hx : h.resource? = some x) (hk : x ∈ p.kept) :
    r ∈ (p.hold h).kept ↔ r ∈ p.kept := by
  rw [mem_kept_hold, hx, Option.some.injEq]
  exact or_iff_right_of_imp fun he => he ▸ hk

/-- A slot keeps its resource. -/
theorem mem_kept_of_slot {s : Slot Nat} (hs : s ∈ p.table.slots) : s.resource ∈ p.kept :=
  List.mem_append_left _ (List.mem_map_of_mem hs)

/-- A lease keeps its resource. -/
theorem mem_kept_of_lease {l : Lease} (hl : l ∈ p.leases) : l.resource ∈ p.kept :=
  (mem_kept_erase hl).2 (.inl rfl)

/-- A running operation keeps the resource that it holds. -/
theorem mem_kept_of_holding {x : Nat} (hh : h ∈ p.holdings) (hx : h.resource? = some x) :
    x ∈ p.kept :=
  (mem_kept_unhold hh hx).2 (.inl rfl)

/-- Resources are destroyed at most once, and exactly if they were made and nothing keeps them. -/
structure IsExact (p : Pool) : Prop where
  nodup : p.destroyed.Nodup
  known : ∀ r ∈ p.kept, r < p.made
  destroyed : ∀ r, r ∈ p.destroyed ↔ r < p.made ∧ r ∉ p.kept

/-- What is kept stays the same. -/
theorem IsExact.of_kept (hp : p.IsExact) (hk : ∀ r, r ∈ q.kept ↔ r ∈ p.kept)
    (hm : q.made = p.made := by exact rfl) (hd : q.destroyed = p.destroyed := by exact rfl) :
    q.IsExact where
  nodup := hd ▸ hp.nodup
  known r hr := hm ▸ hp.known r ((hk r).1 hr)
  destroyed r := by
    rw [hd, hm, hk]
    exact hp.destroyed r

/-- The factory has made a resource, and the running operation keeps it. -/
theorem IsExact.make (hp : p.IsExact) :
    ({ p with made := p.made + 1 }.hold (.product p.made)).IsExact := by
  have hkept : ∀ r, r ∈ ({ p with made := p.made + 1 }.hold (.product p.made)).kept ↔
      r = p.made ∨ r ∈ p.kept := by
    intro r
    simp only [kept, hold, List.filterMap_cons_some (show (Holding.product p.made).resource? = _
      from rfl), List.mem_append, List.mem_cons]
    tauto
  refine ⟨hp.nodup, fun r hr => ?_, fun r => ?_⟩
  · rcases (hkept r).1 hr with rfl | hr
    · exact Nat.lt_succ_self _
    · exact Nat.lt_succ_of_lt (hp.known r hr)
  · change r ∈ p.destroyed ↔ r < p.made + 1 ∧ _
    rw [hp.destroyed, hkept]
    constructor
    · rintro ⟨hlt, hno⟩
      exact ⟨by omega, not_or.2 ⟨by omega, hno⟩⟩
    · rintro ⟨hlt, hno⟩
      obtain ⟨hne, hno⟩ := not_or.1 hno
      exact ⟨by omega, hno⟩

/-- A resource is kept by one thing less, and destroyed if that was the last one. -/
theorem IsExact.settle (hp : p.IsExact) (hr : r ∈ p.kept)
    (hk : ∀ s, s ∈ p.kept ↔ s = r ∨ s ∈ q.kept) (hm : q.made = p.made := by exact rfl)
    (hd : q.destroyed = p.destroyed := by exact rfl) : (q.settle r).IsExact := by
  unfold Pool.settle
  split
  · next hheld =>
    have hmem := (isHeld_iff_mem_kept q r).1 hheld
    refine hp.of_kept (fun s => ?_) hm hd
    rw [hk]
    exact (or_iff_right_of_imp fun he => he ▸ hmem).symm
  · next hheld =>
    have hfree : r ∉ q.kept := mt (isHeld_iff_mem_kept q r).2 hheld
    have hnew : r ∉ p.destroyed := fun hdead => ((hp.destroyed r).1 hdead).2 hr
    refine ⟨List.nodup_cons.2 ⟨hd ▸ hnew, hd ▸ hp.nodup⟩, fun s hs => ?_, fun s => ?_⟩
    · exact hm ▸ hp.known s ((hk s).2 (.inr hs))
    · change s ∈ r :: q.destroyed ↔ s < q.made ∧ s ∉ q.kept
      rw [List.mem_cons, hd, hm, hp.destroyed, hk, not_or]
      by_cases hs : s = r
      · subst hs
        exact iff_of_true (.inl rfl) ⟨hp.known s hr, hfree⟩
      · constructor
        · rintro (he | ⟨hlt, -, hno⟩)
          · exact absurd he hs
          · exact ⟨hlt, hno⟩
        · rintro ⟨hlt, hno⟩
          exact .inr ⟨hlt, hs, hno⟩

/-- Destroying a resource once its destructor may panic is destroying it. -/
theorem IsExact.discard (hp : p.IsExact) (hr : r ∈ p.kept)
    (hk : ∀ s, s ∈ p.kept ↔ s = r ∨ s ∈ q.kept) (hm : q.made = p.made := by exact rfl)
    (hd : q.destroyed = p.destroyed := by exact rfl) : (q.discard r).IsExact := by
  have hsettled := hp.settle hr hk hm hd
  unfold Pool.discard
  split
  · next hheld =>
    rw [Pool.settle, if_pos hheld] at hsettled
    exact hsettled
  · exact hsettled.of_kept fun _ => .rfl

/-- Changing a slot keeps what is kept. -/
theorem mem_kept_modify {id : Nat} {change : Slot Nat → Slot Nat}
    (hr : ∀ s, (change s).resource = s.resource) :
    r ∈ (p.onTable (·.modify id change)).kept ↔ r ∈ p.kept :=
  .of_eq (congrArg (r ∈ ·) (kept_congr (Table.resources_modify hr)))

/-- A slot is changed, and its resource is kept in another way. -/
theorem mem_kept_modify_disown {tenure : Tenure} {id resource : Nat} {change : Slot Nat → Slot Nat}
    (hr : ∀ s, (change s).resource = s.resource) (hh : .slot tenure id resource ∈ p.holdings) :
    r ∈ ((p.onTable (·.modify id change)).disown tenure id resource).kept ↔ r ∈ p.kept :=
  (mem_kept_exchange (p := p.onTable (·.modify id change)) hh rfl rfl).trans (mem_kept_modify hr)

/-- A slot of the table gets an owner, which keeps its resource as well. -/
theorem mem_kept_take {tenure : Tenure} {id resource : Nat} {state : SlotState} {s : Slot Nat}
    (hs : s ∈ p.table.slots) (hid : s.id = id) (hr : s.resource = resource) :
    r ∈ ((p.onTable (·.setState id state)).hold (.slot tenure id resource)).kept ↔ r ∈ p.kept := by
  have hmodify : ∀ x, x ∈ (p.onTable (·.setState id state)).kept ↔ x ∈ p.kept :=
    fun _ => mem_kept_modify fun _ => rfl
  subst hid hr
  exact (mem_kept_hold_of_mem rfl ((hmodify _).2 (mem_kept_of_slot hs))).trans (hmodify r)

/-- A new resource gets a slot. -/
theorem mem_kept_commit {resource : Nat} {state : SlotState} {origin : Origin}
    (hh : .product resource ∈ p.holdings) :
    r ∈ (PoolM.commit resource state origin p).2.kept ↔ r ∈ p.kept := by
  let left := (p.unhold (.product resource)).unhold .reservation
  have hleft : r ∈ p.kept ↔ r = resource ∨ r ∈ left.kept :=
    (mem_kept_unhold hh rfl).trans (or_congr_right (mem_kept_unhold_none rfl).symm)
  have hclaims : ∀ x ∈ (if state = .inUse then [Holding.slot .claim p.table.nextId resource]
      else []).filterMap Holding.resource?, x = resource := by
    split
    · exact fun x hx => List.mem_singleton.1 hx
    · exact fun x hx => absurd hx List.not_mem_nil
  have hslots : (PoolM.commit resource state origin p).2.table.resources =
      p.table.resources ++ [resource] := List.map_append
  have hheld : (PoolM.commit resource state origin p).2.holdings.filterMap Holding.resource? =
      (if state = .inUse then [Holding.slot .claim p.table.nextId resource]
        else []).filterMap Holding.resource? ++ left.holdings.filterMap Holding.resource? :=
    List.filterMap_append
  rw [hleft, kept, hslots, hheld, kept]
  have := hclaims r
  change r ∈ _ ++ (p.leases.map _ ++ (_ ++ p.stuck)) ↔
    r = resource ∨ r ∈ p.table.resources ++ (p.leases.map _ ++ (_ ++ p.stuck))
  simp only [List.mem_append, List.mem_singleton]
  tauto

/-- A lease begins, and keeps the resource of its slot. -/
theorem mem_kept_beginLease {id resource : Nat} (hh : .slot .handOver id resource ∈ p.holdings) :
    r ∈ (PoolM.beginLease id resource p).2.kept ↔ r ∈ p.kept := by
  let lease : Lease := { id := p.nextLease, slot := id, resource }
  let left := (p.unhold (.slot .handOver id resource))
  have hleases : r ∈ { left.hold (.handle lease.id) with leases := lease :: p.leases }.kept ↔
      r = resource ∨ r ∈ (left.hold (.handle lease.id)).kept := by
    simp only [kept, List.map_cons, List.mem_append, List.mem_cons]
    tauto
  refine Iff.trans hleases ?_
  rw [mem_kept_hold, mem_kept_unhold hh rfl]
  exact or_congr_right (or_iff_right nofun)

/-- A lease ends, and the running operation keeps the resource of its slot. -/
theorem mem_kept_endLease {l : Lease} (hl : l ∈ p.leases) :
    r ∈ ({ p.unhold (.handle l.id) with leases := p.leases.erase l }.hold
      (.slot .release l.slot l.resource)).kept ↔ r ∈ p.kept := by
  have hunhold : r ∈ (p.unhold (.handle l.id)).kept ↔ r ∈ p.kept := mem_kept_unhold_none rfl
  have herase : r ∈ (p.unhold (.handle l.id)).kept ↔ r = l.resource ∨
      r ∈ { p.unhold (.handle l.id) with leases := p.leases.erase l }.kept := mem_kept_erase hl
  rw [← hunhold, herase, mem_kept_hold]
  exact or_congr_left ⟨fun he => (Option.some.inj he).symm, fun he => congrArg some he.symm⟩

/-- Every step destroys resources exactly when nothing keeps them any more. -/
theorem IsExact.step (hp : p.IsExact) (h : p.Step q) : q.IsExact := by
  have hsame : ∀ {q' : Pool}, q'.kept = p.kept → ∀ r, r ∈ q'.kept ↔ r ∈ p.kept :=
    fun he r => .of_eq (congrArg (r ∈ ·) he)
  cases h with
  | make => exact hp.make
  | strand resource checker h =>
    have hmem : resource ∈ p.kept := by
      cases checker with
      | caller => exact mem_kept_of_holding h rfl
      | access | release | care =>
        obtain ⟨id, h⟩ := h
        exact mem_kept_of_holding h rfl
    refine hp.of_kept fun r => ?_
    have hstuck : r ∈ { p with stuck := resource :: p.stuck }.kept ↔ r = resource ∨ r ∈ p.kept := by
      simp only [kept, List.mem_append, List.mem_cons]
      tauto
    exact hstuck.trans (or_iff_right_of_imp fun he => he ▸ hmem)
  | invalidateLease id =>
    refine hp.of_kept (hsame (kept_congr rfl ?_))
    change (p.leases.map _).map _ = _
    rw [List.map_map]
    refine List.map_congr_left fun l _ => ?_
    simp only [Function.comp_apply]
    split <;> rfl
  | commit resource state origin hs hc hh => exact hp.of_kept fun _ => mem_kept_commit hh
  | reserve origin wanted =>
    refine hp.of_kept (hsame (kept_congr rfl rfl (filterMap_append_none (fun h hh => ?_) _)))
    rw [List.eq_of_mem_replicate hh]
    rfl
  | unreserve | letGoHandle => exact hp.of_kept fun _ => mem_kept_unhold_none rfl
  | claim s t h =>
    obtain ⟨s', hs', -, rfl, rfl⟩ := Table.claimIdle_eq_some h
    exact hp.of_kept fun _ => mem_kept_take hs' rfl rfl
  | park id s t h =>
    obtain ⟨s', hs', rfl, -, rfl, rfl⟩ := Table.claimForCheck_eq_some h
    exact hp.of_kept fun _ => mem_kept_take hs' rfl rfl
  | confirm =>
    refine hp.of_kept fun _ => mem_kept_modify ?_
    exact fun _ => rfl
  | countAcquired id resource h => exact hp.of_kept fun _ => mem_kept_exchange h rfl rfl
  | beginLease id resource h => exact hp.of_kept fun _ => mem_kept_beginLease h
  | nameHandle name lease =>
    have hleft : (PoolM.nameHandle name lease p).2.kept = (p.unhold (.handle lease)).kept :=
      kept_congr rfl rfl (filterMap_handles (fun _ => rfl) _ _)
    exact hp.of_kept fun r => hleft ▸ mem_kept_unhold_none rfl
  | unnameHandle =>
    exact hp.of_kept (hsame (kept_congr rfl rfl (filterMap_handles (fun _ => rfl) _ _)))
  | cloneHandle => exact hp.of_kept fun _ => mem_kept_hold.trans (or_iff_right nofun)
  | endLease l h => exact hp.of_kept fun _ => mem_kept_endLease h
  | giveBack lease h =>
    refine hp.of_kept fun _ => mem_kept_modify_disown ?_ h
    exact fun _ => rfl
  | reinstate id resource h =>
    exact hp.of_kept fun _ => mem_kept_modify_disown (PoolM.resource_passed _) h
  | unpark id resource error h =>
    exact hp.of_kept fun _ => mem_kept_modify_disown PoolM.resource_unparked h
  | giveUp lease reason h => exact hp.of_kept fun _ => mem_kept_takeOutBroken h
  | takeOutBroken tenure id resource reason ht h =>
    exact hp.of_kept fun _ => mem_kept_takeOutBroken h
  | takeOutLru n =>
    exact hp.of_kept fun _ => mem_kept_takeOut (Table.prunes_removeIdleLru n p.table).resources
  | takeOutExpired f =>
    exact hp.of_kept fun _ => mem_kept_takeOut (Table.prunes_removeIdleWhere f p.table).resources
  | drain => exact hp.of_kept fun _ => mem_kept_takeOut (Table.prunes_drain p.table).resources
  | destroyOne reason s h =>
    rw [bury]
    exact hp.discard (mem_kept_of_holding h rfl) fun _ => mem_kept_unhold h rfl
  | refer l h => exact hp.of_kept fun _ => mem_kept_hold_of_mem rfl (mem_kept_of_lease h)
  | letGo h resource hk hh =>
    have hr : h.resource? = some resource := by
      rcases hk with rfl | rfl <;> rfl
    exact hp.discard (mem_kept_of_holding hh hr) fun _ => mem_kept_unhold hh hr
  | lose h rest resource hh hr =>
    have hmem : h ∈ p.holdings := by simp [hh]
    have hrest : (p.unhold h).holdings = rest := by
      rw [unhold, hh, List.erase_cons_head]
    refine hp.settle (mem_kept_of_holding hmem hr) fun s => ?_
    rw [← hrest]
    exact mem_kept_unhold hmem hr
  | _ => exact hp.of_kept fun _ => .rfl

/-- A new pool has made and destroyed nothing. -/
theorem IsExact.of_isNew (hp : p.IsNew) : p.IsExact := by
  obtain ⟨⟩ := hp
  refine ⟨.nil, fun _ hr => absurd hr List.not_mem_nil, fun r => iff_of_false ?_ ?_⟩
  · exact List.not_mem_nil
  · exact fun ⟨hlt, _⟩ => Nat.not_lt_zero r hlt

/-- After each operation of a run exactly what nobody keeps is destroyed. -/
theorem Occurs.isExact (h : q.Occurs) : q.IsExact :=
  h.invariant (fun _ => IsExact.of_isNew) fun _ _ => IsExact.step

/-- Between operations only slots, leases and silent workers keep resources. -/
theorem Reachable.mem_kept_iff (h : p.Reachable) (r : Nat) :
    r ∈ p.kept ↔ (∃ s ∈ p.table.slots, s.resource = r) ∨ (∃ l ∈ p.leases, l.resource = r) ∨
      r ∈ p.stuck := by
  rw [← isHeld_iff_mem_kept, isHeld_iff, h.idle.2]
  simp

/-- The pool was drained when it had been closed. -/
def IsDrained (q : Pool) : Prop :=
  ∃ p : Pool, p.Arises ∧ p.closed = true ∧ ∃ budget, (PoolM.run (budget + 1) .drain p).2.Steps q

/-- Once a closed pool has been drained no slot keeps a resource. -/
theorem IsDrained.slots_eq_nil (h : q.IsDrained) : q.table.slots = [] := by
  obtain ⟨p, hp, hc, budget, hq⟩ := h
  exact (hp.drained hc budget hq).1

/-- At every moment of a run that user code or a caller can look at, a resource whose lease has a
handle is not destroyed. Between operations a resource that the factory has made is destroyed if and
only if no slot, no lease and no silent worker has it, no resource is destroyed twice, and the
leases are those with a handle. So, once a closed pool has been drained and all handles are dropped,
every resource that was made has been destroyed exactly once, unless a silent worker has it. -/
theorem Occurs.exact_lifetime (h : q.Occurs) :
    (∀ s ∈ q.sight :: q.history.map (·.seen), ∀ name id, (name, id) ∈ s.handles →
      ∃ l ∈ s.leases, l.id = id ∧ l.resource ∉ s.destroyed) ∧
    (q.Reachable →
      (∀ r < q.made, r ∈ q.destroyed ↔ (∀ s ∈ q.table.slots, s.resource ≠ r) ∧
        (∀ l ∈ q.leases, l.resource ≠ r) ∧ r ∉ q.stuck) ∧
      (∀ r, q.destroyed.count r ≤ 1) ∧
      (∀ l ∈ q.leases, ∃ name, (name, l.id) ∈ q.handles) ∧
      (q.IsDrained → q.handles = [] → ∀ r < q.made, r ∉ q.stuck → q.destroyed.count r = 1)) := by
  have hexact := h.isExact
  refine ⟨?_, fun hq => ?_⟩
  · have hsight : ∀ p : Pool, p.IsExact ∧ p.IsLinked → ∀ name id, (name, id) ∈ p.sight.handles →
        ∃ l ∈ p.sight.leases, l.id = id ∧ l.resource ∉ p.sight.destroyed := by
      intro p ⟨hexact, hlinked⟩ name id hname
      obtain ⟨l, hl, hid⟩ := (hlinked.handled id).1 (.inl ⟨name, hname⟩)
      exact ⟨l, hl, hid, fun hdead => ((hexact.destroyed _).1 hdead).2 (mem_kept_of_lease hl)⟩
    exact h.forall_seen
      (S := fun s => ∀ name id, (name, id) ∈ s.handles →
        ∃ l ∈ s.leases, l.id = id ∧ l.resource ∉ s.destroyed)
      (fun _ hp => ⟨.of_isNew hp, .of_isNew hp⟩)
      (fun _ _ ⟨hexact, hlinked⟩ hs => ⟨hexact.step hs, hlinked.step hs⟩) hsight
  · have hcount : ∀ r, q.destroyed.count r ≤ 1 := List.nodup_iff_count_le_one.1 hexact.nodup
    have hiff : ∀ r < q.made, r ∈ q.destroyed ↔ (∀ s ∈ q.table.slots, s.resource ≠ r) ∧
        (∀ l ∈ q.leases, l.resource ≠ r) ∧ r ∉ q.stuck := by
      intro r hr
      rw [hexact.destroyed, hq.mem_kept_iff, not_or, not_or]
      simp [hr]
    have hleases : ∀ l ∈ q.leases, ∃ name, (name, l.id) ∈ q.handles :=
      fun l hl => (hq.exists_lease_iff l.id).1 ⟨l, hl, rfl⟩
    refine ⟨hiff, hcount, hleases, fun hdrained hnone r hr hstuck => ?_⟩
    have hslots := hdrained.slots_eq_nil
    have hdead : r ∈ q.destroyed := by
      refine (hiff r hr).2 ⟨by simp [hslots], fun l hl => ?_, hstuck⟩
      obtain ⟨name, hname⟩ := hleases l hl
      rw [hnone] at hname
      exact absurd hname List.not_mem_nil
    exact Nat.le_antisymm (hcount r) (List.count_pos_iff.2 hdead)

/-- A handle outlives the drain of its closed pool. Its resource is destroyed when it is dropped. -/
theorem exact_lifetime_handle_outlives :
    let acquired := (PoolM.run 2 (.acquire "a") (new "pool" {} .plain)).2
    let drained := (PoolM.run 1 .drain (PoolM.run 1 .close acquired).2).2
    let dropped := (PoolM.run 2 (.drop "a") drained).2
    drained.destroyed = [] ∧ dropped.made = 1 ∧ dropped.destroyed.count 0 = 1 := by
  intro acquired drained dropped
  have hstart : Reachable (new "pool" {} .plain) :=
    reachable_new "pool" {} (UserCode.plain_runs _) (by decide)
  have hacquired : acquired.Reachable :=
    hstart.next (.of_installs_eq_nil rfl rfl) (by decide +kernel)
  have hclosed : (PoolM.run 1 .close acquired).2.Reachable :=
    hacquired.next (.of_installs_eq_nil rfl rfl) (by decide +kernel)
  have hdrained : drained.Reachable :=
    hclosed.next (.of_installs_eq_nil rfl rfl) (by decide +kernel)
  have hdropped : dropped.Reachable :=
    hdrained.next (.of_installs_eq_nil rfl rfl) (by decide +kernel)
  have hlast : dropped.IsDrained := ⟨_, hclosed.arises, by decide +kernel, 0,
    steps_run 2 (.of_installs_eq_nil rfl rfl) hdrained.idle.1⟩
  refine ⟨by decide +kernel, by decide +kernel, ?_⟩
  exact (hdropped.occurs.exact_lifetime.2 hdropped).2.2.2 hlast (by decide +kernel) 0
    (by decide +kernel) (by decide +kernel)

end Pool

end LeasePool
