import LeasePool.Proofs.Table
import LeasePool.Pool.State

/-!
# Owners of slots

A slot that is not idle has one owner: a lease, or a running operation. An owner also knows the
resource of its slot, even after the slot has left the table. Numbers of slots and resources go
together one by one, over the table and over all owners.
-/

namespace LeasePool

/-- Who owns a slot that is not idle. -/
structure Owner where
  slot : Nat
  resource : Nat
  /-- The slot is parked for a check, and not in use. -/
  examines : Bool

/-- The state of a slot with an owner, for as long as it is in the table. -/
def Owner.state (o : Owner) : SlotState := if o.examines then .pending else .inUse

/-- A lease as the owner of its slot. -/
def Lease.owner (l : Lease) : Owner := ⟨l.slot, l.resource, false⟩

/-- The owner that a running operation is by what it holds. -/
def Holding.owner? : Holding → Option Owner
  | .slot tenure id resource => some ⟨id, resource, tenure = .examination⟩
  | _ => none

/-- The new resource that a running operation holds. -/
def Holding.product? : Holding → Option Nat
  | .product resource => some resource
  | _ => none

/-- A slot of a table, or an owner, has this number and this resource. -/
def Table.Binds (t : Table Nat) (owners : List Owner) (id resource : Nat) : Prop :=
  (∃ s ∈ t.slots, s.id = id ∧ s.resource = resource) ∨
    ∃ o ∈ owners, o.slot = id ∧ o.resource = resource

/-- Slots have owners exactly while they are not idle, no two owners have the same slot, and numbers
of slots go together with resources one by one. The resources are those made so far, and new ones
have no slot yet. When owners have been lost, a slot may be left without one. -/
structure Exclusive (t : Table Nat) (owners : List Owner) (products : List Nat) (made : Nat)
    (lost : Prop) : Prop where
  sound : t.IsSound
  nodup : (owners.map (·.slot)).Nodup
  fresh : ∀ o ∈ owners, o.slot < t.nextId
  paired : ∀ {i j r s}, t.Binds owners i r → t.Binds owners j s → (i = j ↔ r = s)
  known : ∀ {i r}, t.Binds owners i r → r < made
  unbound : ∀ r ∈ products, r < made ∧ ∀ i, ¬t.Binds owners i r
  products_nodup : products.Nodup
  owned : ∀ o ∈ owners, ∀ s ∈ t.slots, s.id = o.slot → s.state = o.state
  busy : ¬lost → ∀ s ∈ t.slots, s.state ≠ .idle → ∃ o ∈ owners, o.slot = s.id

variable {t u : Table Nat} {owners others : List Owner} {products newProducts : List Nat}
  {made r : Nat} {lost lostNow : Prop} {o : Owner}

/-- What has an owner is not idle. -/
theorem Owner.state_ne_idle (o : Owner) : o.state ≠ .idle := by
  unfold Owner.state
  split <;> nofun

theorem Table.Binds.of_slot {s : Slot Nat} (hs : s ∈ t.slots) : t.Binds owners s.id s.resource :=
  .inl ⟨s, hs, rfl, rfl⟩

theorem Table.Binds.of_owner (ho : o ∈ owners) : t.Binds owners o.slot o.resource :=
  .inr ⟨o, ho, rfl, rfl⟩

/-- A table with fewer pairs, and fewer owners, binds less. -/
theorem Table.Binds.mono {id resource : Nat} (h : u.Binds others id resource)
    (hs : ∀ s ∈ u.slots, ∃ s' ∈ t.slots, s'.id = s.id ∧ s'.resource = s.resource)
    (ho : ∀ o ∈ others, o ∈ owners) : t.Binds owners id resource := by
  rcases h with ⟨s, hs', rfl, rfl⟩ | ⟨o, ho', rfl, rfl⟩
  · obtain ⟨s', hmem, hid, hr⟩ := hs s hs'
    exact .inl ⟨s', hmem, hid, hr⟩
  · exact .of_owner (ho o ho')

/-- A new slot adds its number and its resource to what is bound. -/
theorem Table.Binds.of_commit {state : SlotState} {time : Instant} {claims : List Owner} {i s : Nat}
    (hclaims : ∀ o ∈ claims, o = ⟨t.nextId, r, false⟩)
    (h : (t.commit r state time).2.Binds (claims ++ owners) i s) :
    t.Binds owners i s ∨ i = t.nextId ∧ s = r := by
  rcases h with ⟨s', hs, rfl, rfl⟩ | ⟨o, ho, rfl, rfl⟩
  · rcases mem_or_new_of_mem_commit hs with hs | ⟨hid, hr, -⟩
    · exact .inl (.of_slot hs)
    · exact .inr ⟨hid, hr⟩
  · rcases List.mem_append.1 ho with ho | ho
    · rw [hclaims o ho]
      exact .inr ⟨rfl, rfl⟩
    · exact .inl (.of_owner ho)

namespace Exclusive

/-- A slot with an owner is in the owner's state and has the owner's resource. -/
theorem of_owner (h : Exclusive t owners products made lost) (ho : o ∈ owners) {s : Slot Nat}
    (hs : s ∈ t.slots) (heq : s.id = o.slot) : s.state = o.state ∧ s.resource = o.resource :=
  ⟨h.owned o ho s hs heq, (h.paired (.of_slot hs) (.of_owner ho)).1 heq⟩

/-- Two owners have different slots and different resources. -/
theorem pairwise_owners (h : Exclusive t owners products made lost) :
    owners.Pairwise fun o o' => o.slot ≠ o'.slot ∧ o.resource ≠ o'.resource := by
  have hslots : owners.Pairwise fun o o' => o.slot ≠ o'.slot := List.pairwise_map.1 h.nodup
  refine hslots.imp_of_mem fun ho ho' hne => ⟨hne, fun heq => hne ?_⟩
  exact (h.paired (.of_owner ho) (.of_owner ho')).2 heq

/-- The order of owners and of new resources does not matter. -/
theorem perm (h : Exclusive t owners products made lost) (ho : owners.Perm others)
    (hp : products.Perm newProducts) (hl : ¬lostNow → ¬lost) :
    Exclusive t others newProducts made lostNow where
  sound := h.sound
  nodup := (ho.map _).nodup_iff.1 h.nodup
  fresh o hmem := h.fresh o (ho.mem_iff.2 hmem)
  paired hi hj := h.paired (hi.mono (fun s hs => ⟨s, hs, rfl, rfl⟩) fun _ => ho.mem_iff.2)
    (hj.mono (fun s hs => ⟨s, hs, rfl, rfl⟩) fun _ => ho.mem_iff.2)
  known hi := h.known (hi.mono (fun s hs => ⟨s, hs, rfl, rfl⟩) fun _ => ho.mem_iff.2)
  unbound r hr := by
    obtain ⟨hlt, hno⟩ := h.unbound r (hp.mem_iff.2 hr)
    exact ⟨hlt, fun i hi =>
      hno i (hi.mono (fun s hs => ⟨s, hs, rfl, rfl⟩) fun _ => ho.mem_iff.2)⟩
  products_nodup := hp.nodup_iff.1 h.products_nodup
  owned o hmem := h.owned o (ho.mem_iff.2 hmem)
  busy hlost s hs hne := by
    obtain ⟨o, hmem, hid⟩ := h.busy (hl hlost) s hs hne
    exact ⟨o, ho.mem_iff.1 hmem, hid⟩

/-- Only who the owners are matters, and not their order. -/
theorem reorder (h : Exclusive t owners products made lost) (ho : owners.Perm others)
    (hp : products.Perm newProducts) : Exclusive t others newProducts made lost :=
  h.perm ho hp id

/-- Fewer slots and fewer owners, of the same numbers and resources. The states of the slots that
remain have to be looked at. -/
theorem shrink (h : Exclusive t owners products made lost) (hsound : u.IsSound)
    (hs : ∀ s ∈ u.slots, ∃ s' ∈ t.slots, s'.id = s.id ∧ s'.resource = s.resource)
    (hn : u.nextId = t.nextId) (ho : others.Sublist owners)
    (howned : ∀ o ∈ others, ∀ s ∈ u.slots, s.id = o.slot → s.state = o.state)
    (hbusy : ¬lostNow → ∀ s ∈ u.slots, s.state ≠ .idle → ∃ o ∈ others, o.slot = s.id) :
    Exclusive u others products made lostNow where
  sound := hsound
  nodup := h.nodup.sublist (ho.map _)
  fresh o hmem := hn ▸ h.fresh o (ho.subset hmem)
  paired hi hj := h.paired (hi.mono hs fun _ hmem => ho.subset hmem)
    (hj.mono hs fun _ hmem => ho.subset hmem)
  known hi := h.known (hi.mono hs fun _ hmem => ho.subset hmem)
  unbound r hr := by
    obtain ⟨hlt, hno⟩ := h.unbound r hr
    exact ⟨hlt, fun i hi => hno i (hi.mono hs fun _ hmem => ho.subset hmem)⟩
  products_nodup := h.products_nodup
  owned := howned
  busy := hbusy

/-- The factory has made a resource. -/
theorem make (h : Exclusive t owners products made lost) :
    Exclusive t owners (made :: products) (made + 1) lost :=
  { h with
    known := fun hi => Nat.lt_succ_of_lt (h.known hi)
    unbound := by
      intro r hr
      rcases List.mem_cons.1 hr with rfl | hr
      · exact ⟨Nat.lt_succ_self _, fun i hi => Nat.lt_irrefl _ (h.known hi)⟩
      · exact ⟨Nat.lt_succ_of_lt (h.unbound r hr).1, (h.unbound r hr).2⟩
    products_nodup := List.nodup_cons.2
      ⟨fun hmem => Nat.lt_irrefl _ (h.unbound _ hmem).1, h.products_nodup⟩ }

/-- A new resource is let go of. -/
theorem dropProduct (h : Exclusive t owners (r :: products) made lost) :
    Exclusive t owners products made lost :=
  { h with
    unbound := fun r hr => h.unbound r (List.mem_cons_of_mem _ hr)
    products_nodup := (List.nodup_cons.1 h.products_nodup).2 }

/-- Slots without owners, or with owners that stay, leave the table. -/
theorem prune (h : Exclusive t owners products made lost) {taken : List (Slot Nat)}
    (ht : t.Prunes u taken) : Exclusive u owners products made lost :=
  h.shrink (ht.isSound h.sound) (fun s hs => ⟨s, ht.mem hs, rfl, rfl⟩) ht.nextId (.refl _)
    (fun o ho s hs => h.owned o ho s (ht.mem hs)) fun hl s hs => h.busy hl s (ht.mem hs)

/-- Reservations have no part in who owns what. -/
theorem recount (h : Exclusive t owners products made lost) (n m : Nat) :
    Exclusive { t with creating := n, overdrawn := m } owners products made lost :=
  h.shrink ⟨h.sound.nodup, h.sound.fresh, h.sound.valid⟩ (fun s hs => ⟨s, hs, rfl, rfl⟩) rfl
    (.refl _) h.owned h.busy

/-- A slot is changed, but not its state. -/
theorem touch (h : Exclusive t owners products made lost) {id : Nat}
    {change : Slot Nat → Slot Nat} (hid : ∀ s, (change s).id = s.id)
    (hr : ∀ s, (change s).resource = s.resource) (hst : ∀ s, (change s).state = s.state) :
    Exclusive (t.modify id change) owners products made lost := by
  have hback : ∀ s ∈ (t.modify id change).slots, ∃ s' ∈ t.slots, s'.id = s.id ∧
      s'.resource = s.resource ∧ s'.state = s.state := by
    intro s hs
    obtain ⟨s', hs', rfl⟩ := Table.mem_modify.1 hs
    refine ⟨s', hs', ?_⟩
    split
    · exact ⟨(hid s').symm, (hr s').symm, (hst s').symm⟩
    · exact ⟨rfl, rfl, rfl⟩
  refine h.shrink (h.sound.modify hid fun s hs => hst s ▸ hs) (Table.keeps_modify hid hr) rfl
    (.refl _) (fun o ho s hs heq => ?_) fun hl s hs hne => ?_
  · obtain ⟨s', hs', hsid, -, hsst⟩ := hback s hs
    rw [← hsst]
    exact h.owned o ho s' hs' (hsid.trans heq)
  · obtain ⟨s', hs', hsid, -, hsst⟩ := hback s hs
    rw [← hsst] at hne
    rw [← hsid]
    exact h.busy hl s' hs' hne

/-- An owner makes its slot idle. -/
theorem free (h : Exclusive t (o :: owners) products made lost) {change : Slot Nat → Slot Nat}
    (hid : ∀ s, (change s).id = s.id) (hr : ∀ s, (change s).resource = s.resource)
    (hst : ∀ s, s.state = o.state → (change s).state = .idle) :
    Exclusive (t.modify o.slot change) owners products made lost := by
  have hnotin := (List.nodup_cons.1 h.nodup).1
  have hfree : ∀ s ∈ t.slots, s.id = o.slot → (change s).state = .idle := fun s hs hso =>
    hst s (h.owned o List.mem_cons_self s hs hso)
  have hsound : (t.modify o.slot change).IsSound := by
    refine ⟨?_, fun s hs => ?_, fun s hs => ?_⟩
    · rw [Table.ids_modify hid]
      exact h.sound.nodup
    · obtain ⟨s', hs', hsid, -⟩ := Table.keeps_modify hid hr s hs
      exact hsid ▸ h.sound.fresh s' hs'
    · obtain ⟨s', hs', rfl⟩ := Table.mem_modify.1 hs
      split
      · next hso =>
        rw [hfree s' hs' hso]
        nofun
      · exact h.sound.valid s' hs'
  refine h.shrink hsound (Table.keeps_modify hid hr) rfl (List.sublist_cons_self o owners)
    (fun o' ho' s hs heq => ?_) fun hl s hs hne => ?_
  · obtain ⟨s', hs', rfl⟩ := Table.mem_modify.1 hs
    have hne : s'.id ≠ o.slot := by
      intro hso
      rw [if_pos hso, hid, hso] at heq
      exact hnotin (List.mem_map.2 ⟨o', ho', heq.symm⟩)
    rw [if_neg hne] at heq ⊢
    exact h.owned o' (List.mem_cons_of_mem _ ho') s' hs' heq
  · obtain ⟨s', hs', rfl⟩ := Table.mem_modify.1 hs
    by_cases hso : s'.id = o.slot
    · rw [if_pos hso] at hne
      exact absurd (hfree s' hs' hso) hne
    · rw [if_neg hso] at hne ⊢
      obtain ⟨o', ho', heq⟩ := h.busy hl s' hs' hne
      rcases List.mem_cons.1 ho' with rfl | ho'
      · exact absurd heq.symm hso
      · exact ⟨o', ho', heq⟩

/-- The slot of an owner leaves the table, and the owner gives it up. -/
theorem giveUp (h : Exclusive t (o :: owners) products made lost) :
    Exclusive (t.invalidate o.slot).2 owners products made lost := by
  have hprune := Table.prunes_invalidate h.sound.nodup o.slot
  have hgone : ∀ s ∈ (t.invalidate o.slot).2.slots, s.id ≠ o.slot := by
    intro s hs
    have := (Table.slots_invalidate h.sound.nodup o.slot).mem_iff.1 hs
    simpa using (List.mem_filter.1 this).2
  refine h.shrink (hprune.isSound h.sound) (fun s hs => ⟨s, hprune.mem hs, rfl, rfl⟩)
    hprune.nextId (List.sublist_cons_self o owners) (fun o' ho' s hs => ?_) fun hl s hs hne => ?_
  · exact h.owned o' (List.mem_cons_of_mem _ ho') s (hprune.mem hs)
  · obtain ⟨o', ho', heq⟩ := h.busy hl s (hprune.mem hs) hne
    rcases List.mem_cons.1 ho' with rfl | ho'
    · exact absurd heq.symm (hgone s hs)
    · exact ⟨o', ho', heq⟩

/-- An owner is lost, and its slot may be left without one. -/
theorem lose (h : Exclusive t (o :: owners) products made lost) (hl : lostNow) :
    Exclusive t owners products made lostNow :=
  h.shrink h.sound (fun s hs => ⟨s, hs, rfl, rfl⟩) rfl (List.sublist_cons_self o owners)
    (fun o' ho' => h.owned o' (List.mem_cons_of_mem _ ho')) fun hn => absurd hl hn

/-- An idle slot gets an owner. -/
theorem take (h : Exclusive t owners products made lost) {s : Slot Nat} (hs : s ∈ t.slots)
    (hi : s.state = .idle) (ho : o.slot = s.id) (hr : o.resource = s.resource) :
    Exclusive (t.setState s.id o.state) (o :: owners) products made lost := by
  have hkeep : ∀ s' ∈ (t.setState s.id o.state).slots,
      ∃ s'' ∈ t.slots, s''.id = s'.id ∧ s''.resource = s'.resource :=
    Table.keeps_modify (fun _ => rfl) fun _ => rfl
  have hnone : ∀ o' ∈ owners, o'.slot ≠ s.id := by
    intro o' ho' heq
    exact o'.state_ne_idle ((h.owned o' ho' s hs heq.symm).symm.trans hi)
  have hbinds : ∀ {i r}, (t.setState s.id o.state).Binds (o :: owners) i r →
      t.Binds owners i r := by
    rintro i r (⟨s', hs', rfl, rfl⟩ | ⟨o', ho', rfl, rfl⟩)
    · obtain ⟨s'', hs'', hid, hr⟩ := hkeep s' hs'
      exact .inl ⟨s'', hs'', hid, hr⟩
    · rcases List.mem_cons.1 ho' with rfl | ho'
      · rw [ho, hr]
        exact .of_slot hs
      · exact .of_owner ho'
  refine ⟨?_, ?_, ?_, fun hi hj => h.paired (hbinds hi) (hbinds hj), fun hi => h.known (hbinds hi),
    fun r hr => ⟨(h.unbound r hr).1, fun i hi => (h.unbound r hr).2 i (hbinds hi)⟩,
    h.products_nodup, ?_, ?_⟩
  · refine h.sound.modify (fun _ => rfl) fun s' _ => ?_
    show o.state ≠ .invalid
    unfold Owner.state
    split <;> nofun
  · refine List.nodup_cons.2 ⟨fun hmem => ?_, h.nodup⟩
    obtain ⟨o', ho', heq⟩ := List.mem_map.1 hmem
    exact hnone o' ho' (heq.trans ho)
  · intro o' ho'
    rcases List.mem_cons.1 ho' with rfl | ho'
    · rw [ho]
      exact h.sound.fresh s hs
    · exact h.fresh o' ho'
  · intro o' ho' s' hs' heq
    obtain ⟨s'', hs'', rfl⟩ := Table.mem_modify.1 hs'
    rcases List.mem_cons.1 ho' with rfl | ho'
    · by_cases hid : s''.id = s.id
      · rw [if_pos hid]
      · rw [if_neg hid, ho] at heq
        exact absurd heq hid
    · by_cases hid : s''.id = s.id
      · rw [if_pos hid] at heq
        exact absurd (heq.symm.trans hid) (hnone o' ho')
      · rw [if_neg hid] at heq ⊢
        exact h.owned o' ho' s'' hs'' heq
  · intro hl s' hs' hne
    obtain ⟨s'', hs'', rfl⟩ := Table.mem_modify.1 hs'
    by_cases hid : s''.id = s.id
    · rw [if_pos hid]
      exact ⟨o, List.mem_cons_self, ho.trans hid.symm⟩
    · rw [if_neg hid] at hne ⊢
      obtain ⟨o', ho', heq⟩ := h.busy hl s'' hs'' hne
      exact ⟨o', List.mem_cons_of_mem _ ho', heq⟩

/-- What is bound has a number that was given out. -/
theorem lt_nextId (h : Exclusive t owners products made lost) {i r : Nat}
    (hi : t.Binds owners i r) : i < t.nextId := by
  rcases hi with ⟨s, hs, rfl, -⟩ | ⟨o, ho, rfl, -⟩
  · exact h.sound.fresh s hs
  · exact h.fresh o ho

/-- Numbers and resources still go together if a new number gets a new resource. -/
theorem paired_new (h : Exclusive t owners (r :: products) made lost) {i j s s' : Nat}
    (hi : t.Binds owners i s ∨ i = t.nextId ∧ s = r)
    (hj : t.Binds owners j s' ∨ j = t.nextId ∧ s' = r) : i = j ↔ s = s' := by
  have hno : ∀ {i s}, t.Binds owners i s → i ≠ t.nextId ∧ s ≠ r := by
    intro k x hk
    refine ⟨Nat.ne_of_lt (h.lt_nextId hk), ?_⟩
    rintro rfl
    exact (h.unbound x List.mem_cons_self).2 k hk
  rcases hi with hi | ⟨rfl, rfl⟩ <;> rcases hj with hj | ⟨rfl, rfl⟩
  · exact h.paired hi hj
  · exact iff_of_false (hno hi).1 (hno hi).2
  · exact iff_of_false (hno hj).1.symm (hno hj).2.symm
  · exact iff_of_true rfl rfl

/-- A new resource gets a slot, which is idle or has an owner at once. -/
theorem add (h : Exclusive t owners (r :: products) made lost) {state : SlotState}
    {time : Instant} {claims : List Owner}
    (hs : state = .idle ∧ claims = [] ∨ state = .inUse ∧ claims = [⟨t.nextId, r, false⟩]) :
    Exclusive (t.commit r state time).2 (claims ++ owners) products made lost := by
  have hclaims : ∀ o ∈ claims, o = ⟨t.nextId, r, false⟩ := by
    rcases hs with ⟨-, rfl⟩ | ⟨-, rfl⟩
    · exact fun _ ho => absurd ho List.not_mem_nil
    · exact fun _ => List.mem_singleton.1
  have hbinds : ∀ {i s}, (t.commit r state time).2.Binds (claims ++ owners) i s →
      t.Binds owners i s ∨ i = t.nextId ∧ s = r := Table.Binds.of_commit hclaims
  refine ⟨h.sound.commit ?_, ?_, ?_, fun hi hj => h.paired_new (hbinds hi) (hbinds hj), ?_, ?_,
    (List.nodup_cons.1 h.products_nodup).2, ?_, ?_⟩
  · rcases hs with ⟨rfl, -⟩ | ⟨rfl, -⟩ <;> nofun
  · rw [List.map_append]
    refine List.nodup_append.2 ⟨?_, h.nodup, ?_⟩
    · rcases hs with ⟨-, rfl⟩ | ⟨-, rfl⟩
      · exact .nil
      · exact List.nodup_singleton _
    · rintro a ha b hb rfl
      obtain ⟨o, ho, rfl⟩ := List.mem_map.1 ha
      obtain ⟨o', ho', heq⟩ := List.mem_map.1 hb
      rw [hclaims o ho] at heq
      exact Nat.lt_irrefl _ (heq ▸ h.fresh o' ho')
  · intro o ho
    rcases List.mem_append.1 ho with ho | ho
    · rw [hclaims o ho]
      exact Nat.lt_succ_self _
    · exact Nat.lt_succ_of_lt (h.fresh o ho)
  · intro i s hi
    rcases hbinds hi with hi | ⟨-, rfl⟩
    · exact h.known hi
    · exact (h.unbound s List.mem_cons_self).1
  · intro s hs'
    obtain ⟨hslt, hsno⟩ := h.unbound s (List.mem_cons_of_mem _ hs')
    refine ⟨hslt, fun i hi => ?_⟩
    rcases hbinds hi with hi | ⟨-, rfl⟩
    · exact hsno i hi
    · exact (List.nodup_cons.1 h.products_nodup).1 hs'
  · intro o ho s hs' heq
    rcases List.mem_append.1 ho with ho | ho
    · rw [hclaims o ho] at heq ⊢
      rcases Table.mem_or_new_of_mem_commit hs' with hs' | ⟨-, -, hst⟩
      · exact absurd (heq ▸ h.sound.fresh s hs') (Nat.lt_irrefl _)
      · rcases hs with ⟨-, rfl⟩ | ⟨rfl, -⟩
        · exact absurd ho List.not_mem_nil
        · exact hst
    · rcases Table.mem_or_new_of_mem_commit hs' with hs' | ⟨hid, -, -⟩
      · exact h.owned o ho s hs' heq
      · exact absurd (hid ▸ heq ▸ h.fresh o ho) (Nat.lt_irrefl _)
  · intro hl s hs' hne
    rcases Table.mem_or_new_of_mem_commit hs' with hs' | ⟨hid, -, hst⟩
    · obtain ⟨o, ho, heq⟩ := h.busy hl s hs' hne
      exact ⟨o, List.mem_append_right _ ho, heq⟩
    · rcases hs with ⟨rfl, -⟩ | ⟨-, rfl⟩
      · exact absurd hst hne
      · exact ⟨_, List.mem_append_left _ List.mem_cons_self, hid.symm⟩

end Exclusive

/-- A property of slots, owners and resources that survives every change which a pool makes to them.
An owner may be lost under a condition. -/
structure Survives (E : Table Nat → List Owner → List Nat → Nat → Prop) (lost : Prop) : Prop where
  reorder : ∀ {t owners others products newProducts made}, E t owners products made →
    owners.Perm others → products.Perm newProducts → E t others newProducts made
  make : ∀ {t owners products made}, E t owners products made →
    E t owners (made :: products) (made + 1)
  dropProduct : ∀ {t owners products made r}, E t owners (r :: products) made →
    E t owners products made
  prune : ∀ {t u taken owners products made}, E t owners products made → t.Prunes u taken →
    E u owners products made
  recount : ∀ {t owners products made}, E t owners products made → ∀ n m,
    E { t with creating := n, overdrawn := m } owners products made
  touch : ∀ {t owners products made id change}, E t owners products made →
    (∀ s, (change s).id = s.id) → (∀ s, (change s).resource = s.resource) →
    (∀ s, (change s).state = s.state) → E (t.modify id change) owners products made
  free : ∀ {t o owners products made change}, E t (o :: owners) products made →
    (∀ s, (change s).id = s.id) → (∀ s, (change s).resource = s.resource) →
    (∀ s, s.state = o.state → (change s).state = .idle) →
    E (t.modify o.slot change) owners products made
  giveUp : ∀ {t o owners products made}, E t (o :: owners) products made →
    E (t.invalidate o.slot).2 owners products made
  lose : ∀ {t o owners products made}, E t (o :: owners) products made → lost →
    E t owners products made
  take : ∀ {t owners products made s o}, E t owners products made → s ∈ t.slots →
    s.state = .idle → o.slot = s.id → o.resource = s.resource →
    E (t.setState s.id o.state) (o :: owners) products made
  add : ∀ {t owners products made r state time claims}, E t owners (r :: products) made →
    state = .idle ∧ claims = [] ∨ state = .inUse ∧ claims = [⟨t.nextId, r, false⟩] →
    E (t.commit r state time).2 (claims ++ owners) products made

/-- The correspondence is such a property. -/
theorem Exclusive.survives (lost : Prop) :
    Survives (fun t owners products made => Exclusive t owners products made lost) lost where
  reorder := .reorder
  make := .make
  dropProduct := .dropProduct
  prune h ht := h.prune ht
  recount := .recount
  touch h hid hr hs := h.touch hid hr hs
  free h hid hr hs := h.free hid hr hs
  giveUp := .giveUp
  lose := .lose
  take h hs hi ho hr := h.take hs hi ho hr
  add h hs := h.add hs

end LeasePool
