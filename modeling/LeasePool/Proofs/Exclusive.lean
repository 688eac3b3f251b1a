import LeasePool.Proofs.History
import LeasePool.Proofs.Owners

/-!
# Slots and their owners in a running pool

Each running operation owns the slots that it holds, and each lease its slot. Every step of a pool
keeps slots, owners and resources in correspondence.
-/

namespace LeasePool

namespace Pool

variable {p q : Pool} {h : Holding} {o : Owner} {r : Nat}

/-- The owners of slots: the leases, and the running operations. -/
def owners (p : Pool) : List Owner :=
  p.leases.map Lease.owner ++ p.holdings.filterMap Holding.owner?

/-- The new resources that running operations hold. -/
def products (p : Pool) : List Nat := p.holdings.filterMap Holding.product?

/-- Slots, owners and resources correspond, but for slots that a panic of the callback for
acquisitions has left without an owner. -/
def IsExclusive (p : Pool) : Prop :=
  Exclusive p.table p.owners p.products p.made (p.HasPanicked .acquired)

/-- Letting go of a holding that counts for nothing leaves what the stack amounts to. -/
theorem filterMap_erase_none {α : Type} {f : Holding → Option α} (hf : f h = none)
    (H : List Holding) : (H.filterMap f).Perm ((H.erase h).filterMap f) := by
  by_cases hh : h ∈ H
  · have hperm := (List.perm_cons_erase hh).filterMap f
    rwa [List.filterMap_cons_none hf] at hperm
  · rw [List.erase_of_not_mem hh]

/-- An element that is erased is what a selection loses. -/
theorem filterMap_erase_some {α : Type} {f : Holding → Option α} {a : α} {H : List Holding}
    (hh : h ∈ H) (hf : f h = some a) : (H.filterMap f).Perm (a :: (H.erase h).filterMap f) := by
  have hperm := (List.perm_cons_erase hh).filterMap f
  rwa [List.filterMap_cons_some hf] at hperm

/-- A lease owns its slot. -/
theorem mem_owners_of_lease {l : Lease} (hl : l ∈ p.leases) : l.owner ∈ p.owners :=
  List.mem_append_left _ (List.mem_map_of_mem hl)

/-- An operation owns the slot that it holds as one. -/
theorem mem_owners_of_holding (hh : h ∈ p.holdings) (ho : h.owner? = some o) : o ∈ p.owners :=
  List.mem_append_right _ (List.mem_filterMap.2 ⟨h, hh, ho⟩)

/-- Taking a slot adds an owner. -/
theorem owners_hold (ho : h.owner? = some o) : (o :: p.owners).Perm (p.hold h).owners := by
  unfold owners hold
  rw [List.filterMap_cons_some ho]
  exact List.perm_middle.symm

/-- Taking what is no slot keeps the owners. -/
theorem owners_hold_none (ho : h.owner? = none) : (p.hold h).owners = p.owners := by
  unfold owners hold
  rw [List.filterMap_cons_none ho]

/-- Taking what is no new resource keeps the new resources. -/
theorem products_hold_none (hr : h.product? = none) : (p.hold h).products = p.products := by
  unfold products hold
  rw [List.filterMap_cons_none hr]

/-- Putting a slot away takes its owner away. -/
theorem owners_unhold (hh : h ∈ p.holdings) (ho : h.owner? = some o) :
    p.owners.Perm (o :: (p.unhold h).owners) :=
  ((filterMap_erase_some hh ho).append_left _).trans List.perm_middle

/-- Putting away what is no slot keeps the owners. -/
theorem owners_unhold_none (ho : h.owner? = none) : p.owners.Perm (p.unhold h).owners :=
  (filterMap_erase_none ho p.holdings).append_left _

/-- Putting a new resource away takes it from the new resources. -/
theorem products_unhold (hh : h ∈ p.holdings) (hr : h.product? = some r) :
    p.products.Perm (r :: (p.unhold h).products) :=
  filterMap_erase_some hh hr

/-- Putting away what is no new resource keeps the new resources. -/
theorem products_unhold_none (hr : h.product? = none) : p.products.Perm (p.unhold h).products :=
  filterMap_erase_none hr p.holdings

/-- What a selection leaves out does not count. -/
theorem filterMap_append_none {α : Type} {f : Holding → Option α} {K : List Holding}
    (hK : ∀ h ∈ K, f h = none) (H : List Holding) : (K ++ H).filterMap f = H.filterMap f := by
  rw [List.filterMap_append, List.filterMap_eq_nil_iff.2 hK, List.nil_append]

/-- Slots that have left the table, and handles, have no part in who owns what. -/
theorem filterMap_removed {α : Type} {f : Holding → Option α} {reason : DestroyReason}
    (hf : ∀ s, f (.removed reason s) = none) (slots : List (Slot Nat)) (H : List Holding) :
    (slots.map (Holding.removed reason) ++ H).filterMap f = H.filterMap f := by
  refine filterMap_append_none (fun h hh => ?_) H
  obtain ⟨s, -, rfl⟩ := List.mem_map.1 hh
  exact hf s

/-- A selection that leaves handles out does not see them. -/
theorem filterMap_handles {α : Type} {f : Holding → Option α} (hf : ∀ id, f (.handle id) = none)
    (ids : List Nat) (H : List Holding) :
    (ids.map Holding.handle ++ H).filterMap f = H.filterMap f := by
  refine filterMap_append_none (fun h hh => ?_) H
  obtain ⟨id, -, rfl⟩ := List.mem_map.1 hh
  exact hf id

/-- Slots that are taken out keep their owners. -/
theorem owners_takeOut (reason : DestroyReason) (f : Table Nat → List (Slot Nat) × Table Nat)
    (p : Pool) : (PoolM.takeOut reason f p).2.owners = p.owners :=
  congrArg (p.leases.map Lease.owner ++ ·) (filterMap_removed (fun _ => rfl) _ _)

/-- Taking out slots keeps the new resources. -/
theorem products_takeOut (reason : DestroyReason) (f : Table Nat → List (Slot Nat) × Table Nat)
    (p : Pool) : (PoolM.takeOut reason f p).2.products = p.products :=
  filterMap_removed (fun _ => rfl) _ _

/-- An operation that disowns a slot was its owner. -/
theorem owners_disown {tenure : Tenure} {id : Nat} (hh : .slot tenure id r ∈ p.holdings) :
    p.owners.Perm (⟨id, r, tenure = .examination⟩ :: (p.disown tenure id r).owners) := by
  have howners := owners_unhold hh rfl
  rwa [← owners_hold_none (h := .reference r) rfl] at howners

/-- Giving up a slot keeps the new resources. -/
theorem products_disown (tenure : Tenure) (id resource : Nat) (p : Pool) :
    p.products.Perm (p.disown tenure id resource).products := by
  have hproducts := products_unhold_none (p := p) (h := .slot tenure id resource) rfl
  rwa [← products_hold_none (h := .reference resource) rfl] at hproducts

/-- An operation that takes a broken slot out of the table has disowned it. -/
theorem takeOutBroken_snd (tenure : Tenure) (id resource : Nat) (reason : DestroyReason)
    (p : Pool) : (PoolM.takeOutBroken tenure id resource reason p).2 =
      (PoolM.takeOut reason (Table.takeInvalid id) (p.disown tenure id resource)).2 :=
  rfl

/-- Reservations have no part in who owns what. -/
theorem filterMap_reserve {α : Type} {f : Holding → Option α} (hf : f .reservation = none)
    (origin : Origin) (wanted : Nat) (p : Pool) :
    (PoolM.reserve origin wanted p).2.holdings.filterMap f = p.holdings.filterMap f := by
  refine filterMap_append_none (fun h hh => ?_) p.holdings
  rw [List.eq_of_mem_replicate hh]
  exact hf

/-- A reservation owns no slot. -/
theorem owners_reserve (origin : Origin) (wanted : Nat) (p : Pool) :
    (PoolM.reserve origin wanted p).2.owners = p.owners :=
  congrArg (p.leases.map Lease.owner ++ ·) (filterMap_reserve rfl origin wanted p)

/-- A reservation is no new resource. -/
theorem products_reserve (origin : Origin) (wanted : Nat) (p : Pool) :
    (PoolM.reserve origin wanted p).2.products = p.products :=
  filterMap_reserve rfl origin wanted p

/-- A name for a handle has no part in who owns what. -/
theorem filterMap_nameHandle {α : Type} {f : Holding → Option α} (hf : ∀ id, f (.handle id) = none)
    (name : String) (lease : Nat) (p : Pool) :
    (p.holdings.filterMap f).Perm ((PoolM.nameHandle name lease p).2.holdings.filterMap f) :=
  (filterMap_erase_none (hf lease) _).trans (.of_eq (filterMap_handles hf _ _).symm)

/-- Taking the name from a handle is not seen by a selection that leaves handles out. -/
theorem filterMap_unnameHandle {α : Type} {f : Holding → Option α}
    (hf : ∀ id, f (.handle id) = none) (name : String) (p : Pool) :
    (p.holdings.filterMap f).Perm ((PoolM.unnameHandle name p).2.holdings.filterMap f) :=
  .of_eq (filterMap_handles hf _ _).symm

/-- A running operation becomes the owner that a lease was. -/
theorem owners_endLease {l : Lease} (hl : l ∈ p.leases) : p.owners.Perm
    ({ p.unhold (.handle l.id) with leases := p.leases.erase l }.hold
      (.slot .release l.slot l.resource)).owners := by
  let left := p.unhold (.handle l.id)
  have hunhold : p.owners.Perm left.owners := owners_unhold_none rfl
  have hleases : left.owners.Perm (l.owner :: { left with leases := p.leases.erase l }.owners) :=
    ((List.perm_cons_erase hl).map Lease.owner).append_right _
  exact hunhold.trans (hleases.trans (owners_hold rfl))

/-- An invalidated lease still owns its slot. -/
theorem owners_invalidateLease (id : Nat) (p : Pool) :
    (PoolM.invalidateLease id p).2.owners = p.owners := by
  change (p.leases.map _).map Lease.owner ++ _ = _
  rw [List.map_map]
  refine congrArg (· ++ _) (List.map_congr_left fun l _ => ?_)
  simp only [Function.comp_apply]
  split <;> rfl

/-- A step keeps the callback for acquisitions marked if it has panicked. -/
theorem HasPanicked.step {call : HookCall} (hp : p.HasPanicked call) (h : p.Step q) :
    q.HasPanicked call := by
  obtain ⟨r, hr, he⟩ := hp
  exact ⟨r, h.history_suffix.subset hr, he⟩

/-- The slots of a pool, their owners and the resources have a property. -/
def Meets (p : Pool) (E : Table Nat → List Owner → List Nat → Nat → Prop) : Prop :=
  E p.table p.owners p.products p.made

section Meets

variable {E : Table Nat → List Owner → List Nat → Nat → Prop} {lost : Prop}

/-- What an operation disowns counts as owned by it until then. -/
theorem Meets.disown (hE : Survives E lost) (hp : p.Meets E) {tenure : Tenure} {id : Nat}
    (hh : .slot tenure id r ∈ p.holdings) :
    E p.table (⟨id, r, tenure = .examination⟩ :: (p.disown tenure id r).owners)
      (p.disown tenure id r).products p.made :=
  hE.reorder hp (owners_disown hh) (products_disown tenure id r p)

/-- A broken slot is taken out of the table by its owner. -/
theorem Meets.takeOutBroken (hE : Survives E lost) (hp : p.Meets E) {tenure : Tenure} {id : Nat}
    (hh : .slot tenure id r ∈ p.holdings) (reason : DestroyReason) :
    (PoolM.takeOutBroken tenure id r reason p).2.Meets E := by
  have hgone := hE.giveUp (hp.disown hE hh)
  rw [← owners_takeOut reason (Table.takeInvalid id) (p.disown tenure id r),
    ← products_takeOut reason (Table.takeInvalid id) (p.disown tenure id r)] at hgone
  rw [takeOutBroken_snd]
  exact hgone

/-- Slots without owners, or with owners that stay, are taken out of the table. -/
theorem Meets.takeOut (hE : Survives E lost) (hp : p.Meets E)
    {f : Table Nat → List (Slot Nat) × Table Nat}
    (hf : p.table.Prunes (f p.table).2 (f p.table).1) (reason : DestroyReason) :
    (PoolM.takeOut reason f p).2.Meets E := by
  have hgone := hE.prune hp hf
  rw [← owners_takeOut reason f p, ← products_takeOut reason f p] at hgone
  exact hgone

/-- A new resource gets a slot. -/
theorem Meets.commit (hE : Survives E lost) (hp : p.Meets E) {state : SlotState} {origin : Origin}
    (hs : state = .idle ∨ state = .inUse) (hh : .product r ∈ p.holdings) :
    (PoolM.commit r state origin p).2.Meets E := by
  have howners : p.owners.Perm ((p.unhold (.product r)).unhold .reservation).owners :=
    (owners_unhold_none rfl).trans (owners_unhold_none rfl)
  have hproducts : p.products.Perm (r :: ((p.unhold (.product r)).unhold .reservation).products) :=
    (products_unhold hh rfl).trans ((products_unhold_none rfl).cons r)
  have hadd : ∀ claims : List Owner,
      state = .idle ∧ claims = [] ∨ state = .inUse ∧ claims = [⟨p.table.nextId, r, false⟩] →
      E (p.table.commit r state p.clock.read.now).2
        (claims ++ ((p.unhold (.product r)).unhold .reservation).owners)
        ((p.unhold (.product r)).unhold .reservation).products p.made :=
    fun _ => hE.add (hE.reorder hp howners hproducts)
  rcases hs with rfl | rfl
  · exact hadd [] (.inl ⟨rfl, rfl⟩)
  · refine hE.reorder (hadd _ (.inr ⟨rfl, rfl⟩)) ?_ (.refl _)
    exact owners_hold (h := .slot .claim p.table.nextId r) rfl

/-- What a panic takes from a running operation is no slot, or one that may be lost. -/
theorem Meets.lose (hE : Survives E (p.HasPanicked .acquired)) (hp : p.Meets E)
    {rest : List Holding} (hh : p.holdings = h :: rest) (hl : p.MayLose h) :
    { p with holdings := rest }.Meets E := by
  have hholdings : (p.unhold h).holdings = rest := by
    rw [unhold, hh, List.erase_cons_head]
  have hmem : h ∈ p.holdings := by simp [hh]
  have hrest : (p.unhold h).Meets E := by
    cases h with
    | slot tenure id r =>
      cases tenure with
      | handOver =>
        exact hE.lose (hE.reorder hp (owners_unhold hmem rfl) (products_unhold_none rfl)) hl
      | claim | examination | release => exact hl.elim
    | product | handle => exact hl.elim
    | reservation | removed | reference =>
      exact hE.reorder hp (owners_unhold_none rfl) (products_unhold_none rfl)
  rw [← hholdings]
  exact hrest

/-- What survives every change of slots, owners and resources survives every step. -/
theorem Meets.step (hE : Survives E (p.HasPanicked .acquired)) (hp : p.Meets E) (h : p.Step q) :
    q.Meets E := by
  cases h with
  | make => exact hE.make hp
  | commit resource state origin hs _ hh => exact hp.commit hE hs hh
  | reserve origin wanted =>
    exact hE.reorder (hE.recount hp _ p.table.overdrawn)
      (.of_eq (owners_reserve origin wanted p).symm)
      (.of_eq (products_reserve origin wanted p).symm)
  | unreserve =>
    exact hE.reorder (hE.recount hp _ _) (owners_unhold_none rfl) (products_unhold_none rfl)
  | claim s t h =>
    obtain ⟨s', hs', hidle, rfl, rfl⟩ := Table.claimIdle_eq_some h
    exact hE.reorder (hE.take (o := ⟨s'.id, s'.resource, false⟩) hp hs' hidle rfl rfl)
      (owners_hold rfl) (.refl _)
  | park id s t h =>
    obtain ⟨s', hs', rfl, hidle, rfl, rfl⟩ := Table.claimForCheck_eq_some h
    exact hE.reorder (hE.take (o := ⟨s'.id, s'.resource, true⟩) hp hs' hidle rfl rfl)
      (owners_hold rfl) (.refl _)
  | confirm => exact hE.touch hp (fun _ => rfl) (fun _ => rfl) fun _ => rfl
  | countAcquired id resource h =>
    exact hE.reorder hp ((owners_unhold h rfl).trans (owners_hold rfl)) (products_unhold_none rfl)
  | beginLease id resource h =>
    exact hE.reorder hp (owners_unhold h rfl) (products_unhold_none rfl)
  | nameHandle name lease =>
    exact hE.reorder hp ((filterMap_nameHandle (fun _ => rfl) name lease p).append_left _)
      (filterMap_nameHandle (fun _ => rfl) name lease p)
  | unnameHandle name =>
    exact hE.reorder hp ((filterMap_unnameHandle (fun _ => rfl) name p).append_left _)
      (filterMap_unnameHandle (fun _ => rfl) name p)
  | letGoHandle => exact hE.reorder hp (owners_unhold_none rfl) (products_unhold_none rfl)
  | endLease l h => exact hE.reorder hp (owners_endLease h) (products_unhold_none rfl)
  | invalidateLease id =>
    exact hE.reorder hp (.of_eq (owners_invalidateLease id p).symm) (.refl _)
  | giveBack lease h =>
    exact hE.free (hp.disown hE h) (fun _ => rfl) (fun _ => rfl) fun _ _ => rfl
  | reinstate id resource h =>
    refine hE.free (hp.disown hE h) (PoolM.id_passed _) (PoolM.resource_passed _) fun s hs => ?_
    rw [PoolM.state_passed, PoolM.state_unparked, hs]
    rfl
  | unpark id resource error h =>
    refine hE.free (hp.disown hE h) PoolM.id_unparked PoolM.resource_unparked fun s hs => ?_
    rw [PoolM.state_unparked, hs]
    rfl
  | giveUp lease reason h => exact hp.takeOutBroken hE h reason
  | takeOutBroken tenure id resource reason _ h => exact hp.takeOutBroken hE h reason
  | takeOutLru n => exact hp.takeOut hE (Table.prunes_removeIdleLru n _) .surplus
  | takeOutExpired f => exact hp.takeOut hE (Table.prunes_removeIdleWhere f _) .expired
  | drain => exact hp.takeOut hE (Table.prunes_drain _) .shutdown
  | destroyOne =>
    rw [bury_eq]
    exact hE.reorder hp (owners_unhold_none rfl) (products_unhold_none rfl)
  | letGo h resource hk hh =>
    rw [discard_eq]
    rcases hk with rfl | rfl
    · exact hE.reorder hp (owners_unhold_none rfl) (products_unhold_none rfl)
    · exact hE.dropProduct (hE.reorder hp (owners_unhold_none rfl) (products_unhold hh rfl))
  | lose h rest resource hh _ hl =>
    rw [settle_eq]
    exact hp.lose hE hh hl
  | _ => exact hp

end Meets

/-- Every step keeps slots, owners and resources in correspondence. -/
theorem IsExclusive.step (hp : p.IsExclusive) (h : p.Step q) : q.IsExclusive := by
  have hq : Exclusive q.table q.owners q.products q.made (p.HasPanicked .acquired) :=
    Meets.step (Exclusive.survives _) hp h
  exact hq.perm (.refl _) (.refl _) (mt fun hl => hl.step h)

/-- A new pool has no slots and no owners. -/
theorem IsExclusive.of_isNew (hp : p.IsNew) : p.IsExclusive := by
  obtain ⟨⟩ := hp
  have hno : ∀ {i r}, ¬Table.Binds {} [] i r := by
    rintro i r (⟨s, hs, -⟩ | ⟨o, ho, -⟩)
    · exact List.not_mem_nil hs
    · exact List.not_mem_nil ho
  have hslots : ∀ s : Slot Nat, s ∉ ({} : Table Nat).slots := fun _ => List.not_mem_nil
  exact
    { sound := ⟨.nil, fun s hs => absurd hs (hslots s), fun s hs => absurd hs (hslots s)⟩
      nodup := .nil
      fresh := fun _ ho => absurd ho List.not_mem_nil
      paired := fun hi => absurd hi hno
      known := fun hi => absurd hi hno
      unbound := fun _ hr => absurd hr List.not_mem_nil
      products_nodup := .nil
      owned := fun _ ho => absurd ho List.not_mem_nil
      busy := fun _ s hs => absurd hs (hslots s) }

/-- Slots, owners and resources correspond at any moment of a run. -/
theorem Arises.isExclusive (h : q.Arises) : q.IsExclusive :=
  h.invariant (fun _ => IsExclusive.of_isNew) fun _ _ => IsExclusive.step

/-- Slots, owners and resources correspond after each operation of a run. -/
theorem Occurs.isExclusive (h : q.Occurs) : q.IsExclusive := h.arises.isExclusive

/-- Whenever a slot is about to become idle, its lease has ended, and it is in use if it is still in
the table. -/
theorem Arises.freeing (h : q.Arises) : ∀ x ∈ q.history, ∀ slot resource,
    x.entry = .freeing slot resource → .slot .release slot resource ∈ x.seen.holdings ∧
      ∀ s ∈ x.seen.table.slots, s.id = slot → s.state = .inUse := by
  intro x hx slot resource he
  obtain ⟨later, earlier, hsplit⟩ := List.append_of_mem hx
  obtain ⟨p, hp, -, hj, -⟩ := h.exists_writer hsplit
  rw [Justifies, he] at hj
  obtain ⟨hseen, hmem⟩ := hj
  have howner : ⟨slot, resource, false⟩ ∈ p.owners := mem_owners_of_holding hmem rfl
  rw [hseen]
  exact ⟨hmem, fun s hs hid => (hp.isExclusive.of_owner howner hs hid).1⟩

end Pool

end LeasePool
