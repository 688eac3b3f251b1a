import LeasePool.Proofs.Exclusive

/-!
# Every hand-out is returned once

A slot is handed out when its lease begins. When the lease has ended, a running operation owns the
slot until it is returned. So the hand-outs are those that were returned, those with a lease and
those that are about to be returned, each of them once. The counter of releases goes along.
-/

namespace LeasePool

/-- The slot that an entry tells to be handed out. -/
def Entry.handedOut? : Entry → Option Nat
  | .handedOut slot _ => some slot
  | _ => none

/-- The slot whose lease an entry tells to have ended. -/
def Entry.returned? : Entry → Option Nat
  | .returned slot _ _ => some slot
  | _ => none

/-- The slot of an ended lease that a running operation has not returned yet. -/
def Holding.returning? : Holding → Option Nat
  | .slot .release id _ => some id
  | _ => none

namespace Pool

variable {p q : Pool}

/-- The slots that were handed out, as often as they were, the latest first. -/
def handedOut (p : Pool) : List Nat := p.history.filterMap (·.entry.handedOut?)

/-- The slots that were returned, as often as they were, the latest first. -/
def returned (p : Pool) : List Nat := p.history.filterMap (·.entry.returned?)

/-- The slots that are leased, and those that are about to be returned. -/
def engaged (p : Pool) : List Nat :=
  p.leases.map (·.slot) ++ p.holdings.filterMap Holding.returning?

/-- What was handed out was returned or is engaged, and the counter of releases is right. -/
structure IsReturning (p : Pool) : Prop where
  slots : p.handedOut.Perm (p.returned ++ p.engaged)
  counted : p.tally.released = .ofNat p.returned.length

namespace IsReturning

/-- Nothing is handed out and nothing returned, and what is engaged stays so. -/
theorem aside (hp : p.IsReturning) (he : p.engaged.Perm q.engaged)
    (hh : q.handedOut = p.handedOut := by rfl) (hr : q.returned = p.returned := by rfl)
    (hc : q.tally.released = p.tally.released := by rfl) : q.IsReturning where
  slots := by
    rw [hh, hr]
    exact hp.slots.trans (he.append_left _)
  counted := by
    rw [hc, hr]
    exact hp.counted

/-- The stack changes, but not what is about to be returned. -/
theorem ofStack (hp : p.IsReturning)
    (hs : (p.holdings.filterMap Holding.returning?).Perm
      (q.holdings.filterMap Holding.returning?))
    (hl : q.leases = p.leases := by rfl) (hh : q.handedOut = p.handedOut := by rfl)
    (hr : q.returned = p.returned := by rfl)
    (hc : q.tally.released = p.tally.released := by rfl) : q.IsReturning := by
  refine hp.aside ?_ hh hr hc
  rw [engaged, engaged, hl]
  exact hs.append_left _

/-- A slot that was about to be returned is returned. -/
theorem give (hp : p.IsReturning) {lease : Lease}
    (hh : .slot .release lease.slot lease.resource ∈ p.holdings)
    (hs : ((p.holdings.erase (.slot .release lease.slot lease.resource)).filterMap
      Holding.returning?).Perm (q.holdings.filterMap Holding.returning?))
    (hl : q.leases = p.leases := by rfl) (hg : q.handedOut = p.handedOut := by rfl)
    (hr : q.returned = lease.slot :: p.returned := by rfl)
    (hc : q.tally.released = p.tally.released + 1 := by rfl) : q.IsReturning where
  slots := by
    have hheld := filterMap_erase_some (f := Holding.returning?) hh rfl
    have hengaged : p.engaged.Perm (lease.slot :: q.engaged) := by
      rw [engaged, engaged, hl]
      exact ((hheld.trans (hs.cons _)).append_left _).trans List.perm_middle
    rw [hg, hr]
    exact (hp.slots.trans (hengaged.append_left _)).trans List.perm_middle
  counted := by
    rw [hc, hr, hp.counted, List.length_cons, UInt64.ofNat_add]
    rfl

/-- An operation that takes a broken slot out owns it no longer, and only refers to its resource. -/
theorem returning_takeOutBroken (tenure : Tenure) (id resource : Nat) (reason : DestroyReason)
    (p : Pool) : ((p.holdings.erase (.slot tenure id resource)).filterMap
      Holding.returning?).Perm
        ((PoolM.takeOutBroken tenure id resource reason p).2.holdings.filterMap
          Holding.returning?) := by
  have hsilent : ∀ s, (Holding.removed reason s).returning? = none := fun _ => rfl
  exact .of_eq (filterMap_removed hsilent (p.table.invalidate id).1.toList
    (.reference resource :: p.holdings.erase (.slot tenure id resource))).symm

/-- A remark tells of no hand-out and of no return. -/
theorem remark (hp : p.IsReturning) {e : Entry} (he : e.IsRemark) : (p.note e).IsReturning := by
  have hnone : e.handedOut? = none ∧ e.returned? = none := by
    cases e with
    | handedOut | returned => exact he.elim
    | _ => exact ⟨rfl, rfl⟩
  exact hp.ofStack (.refl _) rfl (List.filterMap_cons_none hnone.1)
    (List.filterMap_cons_none hnone.2)

/-- Every step keeps the account of hand-outs and returns right. -/
theorem step (hp : p.IsReturning) (h : p.Step q) : q.IsReturning := by
  cases h with
  | remark e he => exact hp.remark he
  | count c n hc =>
    refine hp.ofStack (.refl _) rfl rfl rfl ?_
    cases c <;> first | rfl | exact hc.elim
  | conclude resource checker result =>
    refine hp.ofStack (.refl _) rfl rfl rfl ?_
    rcases result with _ | (_ | _) <;> rfl
  | commit resource state origin hs =>
    have hleft : (p.holdings.filterMap Holding.returning?).Perm
        (((p.holdings.erase (.product resource)).erase .reservation).filterMap
          Holding.returning?) :=
      (filterMap_erase_none rfl _).trans (filterMap_erase_none rfl _)
    rcases hs with rfl | rfl <;> exact hp.ofStack hleft
  | reserve origin wanted => exact hp.ofStack (.of_eq (filterMap_reserve rfl origin wanted p).symm)
  | unreserve | letGoHandle | countAcquired | reinstate | unpark =>
    exact hp.ofStack (filterMap_erase_none rfl p.holdings)
  | beginLease id resource h =>
    have hengaged : (id :: p.engaged).Perm (PoolM.beginLease id resource p).2.engaged :=
      ((filterMap_erase_none (f := Holding.returning?) rfl p.holdings).append_left _).cons id
    exact
      { slots := ((hp.slots.cons id).trans List.perm_middle.symm).trans
          (hengaged.append_left _)
        counted := hp.counted }
  | nameHandle name lease =>
    exact hp.ofStack (filterMap_nameHandle (fun _ => rfl) name lease p)
  | unnameHandle name => exact hp.ofStack (filterMap_unnameHandle (fun _ => rfl) name p)
  | endLease l h =>
    refine hp.aside ?_
    have hleases := (List.perm_cons_erase h).map (·.slot)
    have hstack := filterMap_erase_none (h := .handle l.id) (f := Holding.returning?) rfl p.holdings
    exact ((hleases.append_right _).trans List.perm_middle.symm).trans
      ((hstack.cons l.slot).append_left _)
  | invalidateLease id =>
    refine hp.aside (.of_eq (congrArg (· ++ _) ?_))
    refine Eq.symm ((List.map_map ..).trans (List.map_congr_left fun l _ => ?_))
    simp only [Function.comp_apply]
    split <;> rfl
  | giveBack lease h => exact hp.give h (.refl _)
  | giveUp lease reason h => exact hp.give h (returning_takeOutBroken _ _ _ reason p)
  | takeOutBroken tenure id resource reason ht =>
    have hnone : (Holding.slot tenure id resource).returning? = none := by
      rcases ht with rfl | ⟨rfl, -⟩ <;> rfl
    exact hp.ofStack ((filterMap_erase_none hnone p.holdings).trans
      (returning_takeOutBroken tenure id resource reason p))
  | takeOutLru | takeOutExpired | drain =>
    exact hp.ofStack (.of_eq (filterMap_removed (fun _ => rfl) _ _).symm)
  | destroyOne =>
    rw [bury_eq]
    exact hp.ofStack (filterMap_erase_none rfl p.holdings)
  | letGo h resource hk =>
    rw [discard_eq]
    refine hp.ofStack (filterMap_erase_none ?_ p.holdings)
    rcases hk with rfl | rfl <;> rfl
  | lose h rest resource hh _ hl =>
    rw [settle_eq]
    have hnone : h.returning? = none := by
      match h, hl with
      | .slot .handOver _ _, _ | .removed _ _, _ | .reservation, _ | .reference _, _ => rfl
    refine hp.ofStack (.of_eq ?_)
    rw [hh]
    exact List.filterMap_cons_none hnone
  | _ => exact hp.ofStack (.refl _)

/-- No lease has been given back in a new pool. -/
theorem of_isNew (hp : p.IsNew) : p.IsReturning := by
  obtain ⟨⟩ := hp
  exact ⟨.refl _, rfl⟩

end IsReturning

/-- At any moment of a run, what was handed out was returned or is engaged. -/
theorem Arises.isReturning (h : q.Arises) : q.IsReturning :=
  h.invariant (fun _ => IsReturning.of_isNew) fun _ _ => IsReturning.step

/-- Between operations what was handed out was returned or is leased. -/
theorem Reachable.handedOut_perm (h : q.Reachable) :
    q.handedOut.Perm (q.returned ++ q.leases.map (·.slot)) := by
  have hslots := h.arises.isReturning.slots
  rwa [engaged, h.idle.2, List.filterMap_nil, List.append_nil] at hslots

end Pool

end LeasePool
