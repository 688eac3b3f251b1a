import LeasePool.Proofs.Exclusive

/-!
# Broken resources

A resource is found broken when it fails a check on access or on release, when the health-care job
finds it unhealthy, or when its lease ends after it was invalidated. Before user code runs again,
its slot has left the table and its owner has given it up. Numbers of slots and of resources are
not given out twice, so neither of the two is ever handed out again.
-/

namespace LeasePool

/-- A resource and its slot are found broken by an entry. The verdict of a check was given while the
operation owned the slot. -/
def Record.Condemns (x : Record) (id resource : Nat) : Prop :=
  match x.entry with
  | .verdict checked checker result =>
    checked = resource ∧ checker.condemns result = true ∧
      ∃ tenure, .slot tenure id resource ∈ x.seen.holdings
  | .returned slot returned invalidated => slot = id ∧ returned = resource ∧ invalidated = true
  | _ => False

/-- An entry finds no other slot broken than one, and tells of no hand-out. -/
structure Record.Accuses (x : Record) (slot resource : Nat) : Prop where
  named : ∀ r, x.entry.condemned? = some r → x.Condemns slot r
  only : ∀ id r, x.Condemns id r → id = slot ∧ r = resource
  silent : ∀ id r, x.entry ≠ .handedOut id r

section Record

variable {x : Record} {slot resource : Nat}

/-- A record that condemns a slot condemns its resource. -/
theorem Record.Condemns.condemned? (h : x.Condemns slot resource) :
    x.entry.condemned? = some resource := by
  obtain ⟨time, depth, traced, seen, entry⟩ := x
  cases entry with
  | verdict checked checker result =>
    obtain ⟨rfl, hcondemns, -⟩ := h
    exact if_pos hcondemns
  | returned id returned invalidated =>
    obtain ⟨rfl, rfl, rfl⟩ := h
    rfl
  | _ => exact h.elim

/-- An event of a slot accuses that slot alone. -/
theorem Record.Accuses.of_event {e : Event} (hx : x.entry = .event e) :
    x.Accuses slot resource where
  named r hr := by
    rw [hx] at hr
    cases hr
  only id r hr := by
    rw [Record.Condemns, hx] at hr
    exact hr.elim
  silent id r he := by
    cases hx.symm.trans he

/-- The end of a lease accuses its slot alone. -/
theorem Record.Accuses.of_returned {invalidated : Bool}
    (hx : x.entry = .returned slot resource invalidated) : x.Accuses slot resource where
  named r hr := by
    rw [hx] at hr
    rw [Record.Condemns, hx]
    cases invalidated with
    | false => cases hr
    | true =>
      cases hr
      exact ⟨rfl, rfl, rfl⟩
  only id r hr := by
    rw [Record.Condemns, hx] at hr
    exact ⟨hr.1.symm, hr.2.1.symm⟩
  silent id r he := by
    cases hx.symm.trans he

end Record

/-- A number and a resource that have been given out are bound to nothing any more. -/
structure Gone (t : Table Nat) (owners : List Owner) (products : List Nat)
    (made slot resource : Nat) : Prop where
  issued : slot < t.nextId
  known : resource < made
  unmade : resource ∉ products
  unbound : ∀ {i r}, t.Binds owners i r → i ≠ slot ∧ r ≠ resource

namespace Gone

variable {t u : Table Nat} {owners others : List Owner} {products newProducts : List Nat}
  {made slot resource : Nat}

/-- Fewer slots, fewer owners and fewer new resources. -/
theorem shrink (h : Gone t owners products made slot resource)
    (hs : ∀ s ∈ u.slots, ∃ s' ∈ t.slots, s'.id = s.id ∧ s'.resource = s.resource)
    (hn : u.nextId = t.nextId) (ho : ∀ o ∈ others, o ∈ owners)
    (hr : ∀ r ∈ newProducts, r ∈ products) : Gone u others newProducts made slot resource where
  issued := hn ▸ h.issued
  known := h.known
  unmade hmem := h.unmade (hr resource hmem)
  unbound hb := h.unbound (hb.mono hs ho)

/-- What is gone stays so in whatever order the others are listed. -/
theorem reorder (h : Gone t owners products made slot resource) (ho : owners.Perm others)
    (hr : products.Perm newProducts) : Gone t others newProducts made slot resource :=
  h.shrink (fun s hs => ⟨s, hs, rfl, rfl⟩) rfl (fun _ => ho.mem_iff.2) fun _ => hr.mem_iff.2

/-- An owner has gone. -/
theorem disown {o : Owner} (h : Gone t (o :: owners) products made slot resource) :
    Gone t owners products made slot resource :=
  h.shrink (fun s hs => ⟨s, hs, rfl, rfl⟩) rfl (fun _ => List.mem_cons_of_mem o) fun _ => id

/-- A new resource is let go of. -/
theorem dropProduct {r : Nat} (h : Gone t owners (r :: products) made slot resource) :
    Gone t owners products made slot resource :=
  h.shrink (fun s hs => ⟨s, hs, rfl, rfl⟩) rfl (fun _ => id) fun _ => List.mem_cons_of_mem r

/-- Slots leave the table. -/
theorem prune (h : Gone t owners products made slot resource) {taken : List (Slot Nat)}
    (ht : t.Prunes u taken) : Gone u owners products made slot resource :=
  h.shrink (fun s hs => ⟨s, ht.mem hs, rfl, rfl⟩) ht.nextId (fun _ => id) fun _ => id

/-- Reservations have no part in it. -/
theorem recount (h : Gone t owners products made slot resource) (n m : Nat) :
    Gone { t with creating := n, overdrawn := m } owners products made slot resource :=
  h.shrink (fun s hs => ⟨s, hs, rfl, rfl⟩) rfl (fun _ => id) fun _ => id

/-- A slot is changed. -/
theorem touch (h : Gone t owners products made slot resource) {i : Nat}
    {change : Slot Nat → Slot Nat} (hid : ∀ s, (change s).id = s.id)
    (hr : ∀ s, (change s).resource = s.resource) :
    Gone (t.modify i change) owners products made slot resource :=
  h.shrink (Table.keeps_modify hid hr) rfl (fun _ => id) fun _ => id

/-- A slot of the table gets an owner. -/
theorem take (h : Gone t owners products made slot resource) {s : Slot Nat} {o : Owner}
    {state : SlotState} (hs : s ∈ t.slots) (ho : o.slot = s.id) (hr : o.resource = s.resource) :
    Gone (t.setState s.id state) (o :: owners) products made slot resource := by
  have htouched : Gone (t.setState s.id state) owners products made slot resource :=
    h.touch (fun _ => rfl) fun _ => rfl
  refine { htouched with unbound := fun hb => ?_ }
  rcases hb with hslot | ⟨o', ho', rfl, rfl⟩
  · exact htouched.unbound (.inl hslot)
  · rcases List.mem_cons.1 ho' with rfl | ho'
    · exact ho ▸ hr ▸ h.unbound (.of_slot hs)
    · exact htouched.unbound (.of_owner ho')

/-- A resource that the factory has made gets a new number. -/
theorem add {r : Nat} (h : Gone t owners (r :: products) made slot resource) {state : SlotState}
    {time : Instant} {claims : List Owner} (hclaims : ∀ o ∈ claims, o = ⟨t.nextId, r, false⟩) :
    Gone (t.commit r state time).2 (claims ++ owners) products made slot resource where
  issued := Nat.lt_succ_of_lt h.issued
  known := h.known
  unmade hmem := h.unmade (List.mem_cons_of_mem r hmem)
  unbound hb := by
    rcases Table.Binds.of_commit hclaims hb with hb | ⟨rfl, rfl⟩
    · exact h.unbound hb
    · exact ⟨Nat.ne_of_gt h.issued, fun he => h.unmade (he ▸ List.mem_cons_self)⟩

/-- The factory makes another resource. -/
theorem make (h : Gone t owners products made slot resource) :
    Gone t owners (made :: products) (made + 1) slot resource :=
  { h with
    known := Nat.lt_succ_of_lt h.known
    unmade := fun hmem => by
      rcases List.mem_cons.1 hmem with he | hmem
      · exact Nat.lt_irrefl _ (he ▸ h.known)
      · exact h.unmade hmem }

/-- What is gone stays gone. -/
theorem survives (slot resource : Nat) (lost : Prop) :
    Survives (fun t owners products made => Gone t owners products made slot resource) lost where
  reorder := .reorder
  make := .make
  dropProduct := .dropProduct
  prune h ht := h.prune ht
  recount := .recount
  touch h hid hr _ := h.touch hid hr
  free h hid hr _ := h.disown.touch hid hr
  giveUp {t o _ _ _} h := h.disown.shrink (Table.keeps_invalidate t o.slot)
    (Table.nextId_invalidate t o.slot) (fun _ => id) fun _ => id
  lose h _ := h.disown
  take h hs _ ho hr := h.take hs ho hr
  add h hs := by
    rcases hs with ⟨-, rfl⟩ | ⟨-, rfl⟩
    · exact h.add fun _ ho => absurd ho List.not_mem_nil
    · exact h.add fun _ => List.mem_singleton.1

end Gone

/-- What an owner gives up when its slot leaves the table is bound to nothing any more. -/
theorem Exclusive.gone {t : Table Nat} {owners : List Owner} {products : List Nat} {made : Nat}
    {lost : Prop} {o : Owner} (h : Exclusive t (o :: owners) products made lost) :
    Gone (t.invalidate o.slot).2 owners products made o.slot o.resource where
  issued := Table.nextId_invalidate t o.slot ▸ h.fresh o List.mem_cons_self
  known := h.known (.of_owner List.mem_cons_self)
  unmade hmem := (h.unbound o.resource hmem).2 o.slot (.of_owner List.mem_cons_self)
  unbound := by
    rintro i r (⟨s, hs, rfl, rfl⟩ | ⟨o', ho', rfl, rfl⟩)
    · obtain ⟨hs, hne⟩ := List.mem_filter.1
        ((Table.slots_invalidate h.sound.nodup o.slot).mem_iff.1 hs)
      have hid : s.id ≠ o.slot := bne_iff_ne.1 hne
      exact ⟨hid, fun hr => hid ((h.paired (.of_slot hs) (.of_owner List.mem_cons_self)).2 hr)⟩
    · obtain ⟨hslot, hresource⟩ := (List.pairwise_cons.1 h.pairwise_owners).1 o' ho'
      exact ⟨hslot.symm, hresource.symm⟩

namespace Pool

variable {p q : Pool} {slot resource : Nat}

/-- A slot and a resource that nobody can get any more. -/
def Lost (p : Pool) (slot resource : Nat) : Prop :=
  Gone p.table p.owners p.products p.made slot resource

/-- No step brings back what is lost. -/
theorem Lost.step (hp : p.Lost slot resource) (h : p.Step q) : q.Lost slot resource :=
  Meets.step (Gone.survives slot resource _) hp h

/-- What is lost stays lost. -/
theorem Lost.steps (hp : p.Lost slot resource) (h : p.Steps q) : q.Lost slot resource :=
  h.invariant (I := fun q => q.Lost slot resource) (fun _ _ => Lost.step) hp

/-- A broken slot that is taken out by its owner is lost, and so is its resource. -/
theorem IsExclusive.lost (hp : p.IsExclusive) {tenure : Tenure}
    (hh : .slot tenure slot resource ∈ p.holdings) (reason : DestroyReason) :
    (PoolM.takeOutBroken tenure slot resource reason p).2.Lost slot resource := by
  have howned : Exclusive p.table _ _ p.made _ := Meets.disown (Exclusive.survives _) hp hh
  have hgone := howned.gone
  rw [← owners_takeOut reason (Table.takeInvalid slot) (p.disown tenure slot resource),
    ← products_takeOut reason (Table.takeInvalid slot) (p.disown tenure slot resource)] at hgone
  exact hgone

/-- What was found broken is lost, and has not been handed out since. -/
structure IsClean (p : Pool) : Prop where
  named : ∀ x ∈ p.history, ∀ resource, x.entry.condemned? = some resource →
    ∃ slot, x.Condemns slot resource
  lost : ∀ x ∈ p.history, ∀ slot resource, x.Condemns slot resource → p.Lost slot resource
  kept : p.history.Pairwise fun later earlier => ∀ slot resource, earlier.Condemns slot resource →
    ∀ id other, later.entry = .handedOut id other → id ≠ slot ∧ other ≠ resource

variable {x : Record}

/-- The verdict of a check is about the slot that the operation owns. -/
theorem IsExclusive.accuses (hp : p.IsExclusive) {tenure : Tenure} {checker : Checker}
    {result : Except CheckError Verdict} (hh : .slot tenure slot resource ∈ p.holdings)
    (hx : x.entry = .verdict resource checker result) (hseen : x.seen.holdings = p.holdings) :
    x.Accuses slot resource where
  named r hr := by
    rw [hx, Entry.condemned?] at hr
    obtain ⟨hcondemns, he⟩ := Option.ite_none_right_eq_some.1 hr
    cases he
    rw [Record.Condemns, hx]
    exact ⟨rfl, hcondemns, tenure, hseen ▸ hh⟩
  only id r hr := by
    rw [Record.Condemns, hx] at hr
    obtain ⟨rfl, -, other, hother⟩ := hr
    rw [hseen] at hother
    have hpair := hp.paired (.of_owner (mem_owners_of_holding hother rfl))
      (.of_owner (mem_owners_of_holding hh rfl))
    exact ⟨hpair.2 rfl, rfl⟩
  silent id r he := by
    cases hx.symm.trans he

/-- Nothing is found broken by a step that leaves the list of broken resources alone. What it hands
out is not lost. -/
theorem IsClean.step (hp : p.IsClean) (h : p.Step q) (hplain : q.condemned = p.condemned) :
    q.IsClean := by
  obtain ⟨new, hnew, hjustified⟩ := h.justified
  have hnone : ∀ x ∈ new, ∀ r, x.entry.condemned? ≠ some r := by
    have hnil : new.filterMap (·.entry.condemned?) = [] := by
      rw [condemned, hnew, List.filterMap_append] at hplain
      exact List.append_left_eq_self.1 hplain
    exact fun x hx r => ne_of_eq_of_ne (List.filterMap_eq_nil_iff.1 hnil x hx) nofun
  refine ⟨?_, ?_, ?_⟩
  · rw [hnew]
    intro x hx r hr
    rcases List.mem_append.1 hx with hx | hx
    · exact absurd hr (hnone x hx r)
    · exact hp.named x hx r hr
  · rw [hnew]
    intro x hx id r hr
    rcases List.mem_append.1 hx with hx | hx
    · exact absurd hr.condemned? (hnone x hx r)
    · exact (hp.lost x hx id r hr).step h
  · rw [hnew]
    refine List.pairwise_append.2 ⟨?_, hp.kept, fun y hy x hx slot r hr id other he => ?_⟩
    · refine List.pairwise_of_forall_mem_list fun y _ x hx slot r hr => ?_
      exact absurd hr.condemned? (hnone x hx r)
    · have hheld := hjustified y hy
      rw [Justifies, he] at hheld
      exact (hp.lost x hx slot r hr).unbound (.of_owner (mem_owners_of_holding hheld rfl))

/-- One slot is found broken, and is lost when the next user code runs. -/
theorem IsClean.condemn (hp : p.IsClean) (h : p.Steps q) (new : List Record)
    (hnew : q.history = new ++ p.history) (hlost : q.Lost slot resource)
    (hall : ∀ x ∈ new, x.Accuses slot resource) : q.IsClean := by
  refine ⟨?_, ?_, ?_⟩
  · rw [hnew]
    intro x hx r hr
    rcases List.mem_append.1 hx with hx | hx
    · exact ⟨slot, (hall x hx).named r hr⟩
    · exact hp.named x hx r hr
  · rw [hnew]
    intro x hx id r hr
    rcases List.mem_append.1 hx with hx | hx
    · obtain ⟨rfl, rfl⟩ := (hall x hx).only id r hr
      exact hlost
    · exact (hp.lost x hx id r hr).steps h
  · rw [hnew]
    refine List.pairwise_append.2 ⟨?_, hp.kept, fun y hy x _ id r _ i s he => ?_⟩
    · refine List.pairwise_of_forall_mem_list fun y hy x _ id r _ i s he => ?_
      exact absurd he ((hall y hy).silent i s)
    · exact absurd he ((hall y hy).silent i s)

/-- A cycle that weeds out a resource has lost it. -/
theorem Weeds.isClean (h : p.Weeds q) (he : p.IsExclusive) (hp : p.IsClean) : q.IsClean := by
  have hsteps : p.Steps q := steps_of_jobSteps h.steps
  obtain ⟨id, resource, reason, hmem⟩ := h
  have hconcluded : (PoolM.conclude resource .care (.ok (.unhealthy reason)) p).2.IsExclusive :=
    he.step (.conclude resource .care _ ⟨id, hmem⟩)
  exact hp.condemn hsteps [_] rfl (hconcluded.lost hmem .unhealthy)
    (List.forall_mem_singleton.2 (he.accuses hmem rfl rfl))

/-- An operation that rejects a resource has lost it. -/
theorem Rejects.isClean (h : p.Rejects q) (he : p.IsExclusive) (hp : p.IsClean) : q.IsClean := by
  have hsteps : p.Steps q := h.steps
  cases h with
  | access id resource result reason hmem =>
    have hnoted : ((PoolM.conclude resource .access result p).2.note
        (.event (.healthCheckFailed id reason))).IsExclusive :=
      (he.step (.conclude resource .access result ⟨id, hmem⟩)).step (.remark _ trivial)
    refine hp.condemn hsteps [_, _] rfl (hnoted.lost hmem .unhealthy) ?_
    exact List.forall_mem_cons.2 ⟨.of_event rfl,
      List.forall_mem_singleton.2 (he.accuses hmem rfl rfl)⟩
  | release lease result reason hmem =>
    have hnoted : ((PoolM.conclude lease.resource .release result p).2.note
        (.event (.healthCheckFailed lease.slot reason))).IsExclusive :=
      (he.step (.conclude lease.resource .release result ⟨lease.slot, hmem⟩)).step
        (.remark _ trivial)
    refine hp.condemn hsteps [_, _, _] rfl (hnoted.lost hmem .unhealthy) ?_
    exact List.forall_mem_cons.2 ⟨.of_returned rfl, List.forall_mem_cons.2 ⟨.of_event rfl,
      List.forall_mem_singleton.2 (he.accuses hmem rfl rfl)⟩⟩
  | invalidated lease hmem =>
    exact hp.condemn hsteps [_] rfl (he.lost hmem .invalidated)
      (List.forall_mem_singleton.2 (.of_returned rfl))

/-- Marking a slot in a cycle finds nothing broken. -/
theorem Passes.isClean (h : p.Passes q) (hp : p.IsClean) : q.IsClean := by
  cases h with
  | checked id resource hmem =>
    have hconcluded := hp.step (.conclude resource .care (.ok .healthy) ⟨id, hmem⟩) rfl
    exact hconcluded.step (.reinstate id resource hmem (.inr (.of_verdict rfl p.history))) rfl
  | unchecked id resource hmem hs => exact hp.step (.reinstate id resource hmem (.inl hs)) rfl

/-- Marking a slot in an acquisition finds nothing broken. -/
theorem Approves.isClean (h : p.Approves q) (hp : p.IsClean) : q.IsClean := by
  cases h with
  | checked id resource hmem =>
    have hconcluded := hp.step (.conclude resource .access (.ok .healthy) ⟨id, hmem⟩) rfl
    exact hconcluded.step (.confirm id resource hmem) rfl
  | unchecked id resource hmem => exact hp.step (.confirm id resource hmem) rfl

/-- Nothing has been found broken in a new pool. -/
theorem IsClean.of_isNew (hp : p.IsNew) : p.IsClean := by
  obtain ⟨⟩ := hp
  exact ⟨fun _ hx => absurd hx List.not_mem_nil, fun _ hx => absurd hx List.not_mem_nil, .nil⟩

/-- Nothing broken can be had after a move. -/
theorem Move.isClean (h : p.Move q) (he : p.IsExclusive) (hp : p.IsClean) : q.IsClean := by
  cases h with
  | step h hf => exact hp.step h (condemned_of_findings hf)
  | weed h => exact h.isClean he hp
  | reject h => exact h.isClean he hp
  | pass h => exact h.isClean hp
  | approve h => exact h.isClean hp

/-- Nothing broken can be had at any moment at which user code or a caller can look at the pool. -/
theorem Surfaces.isClean (h : q.Surfaces) : q.IsClean := by
  refine (h.invariant (I := fun p => p.IsExclusive ∧ p.IsClean) ?_ ?_).2
  · exact fun p hp => ⟨.of_isNew hp, .of_isNew hp⟩
  · exact fun p q hp hmove => ⟨hmove.steps.invariant (fun _ _ => IsExclusive.step) hp.1,
      hmove.isClean hp.1 hp.2⟩

/-- Between the operations of a run all that was found broken is lost. -/
theorem Occurs.isClean (h : q.Occurs) : q.IsClean := h.surfaces.isClean

end Pool

end LeasePool
