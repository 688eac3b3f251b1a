import LeasePool.Proofs.Restock
import LeasePool.Proofs.Slots

/-!
# The search of an acquisition

An acquisition tries the idle slots one after another, each the first of the table that the rejected
ones have left, and creates new resources when no slot is idle. This module says which resources it
rejects, which one it hands out, and why it hands out none. A search that has rejected one resource
goes on as a search from what that one has left.
-/

namespace LeasePool

namespace Table

variable {t u : Table Nat} {s : Slot Nat} {slots : List (Slot Nat)}

/-- The first idle slot, in table order. -/
def firstIdle? (t : Table Nat) : Option (Slot Nat) := t.slots.find? (·.state == .idle)

/-- A table loses slots one after another, each the first idle one of what the others have left. -/
inductive Sheds : Table Nat → List (Slot Nat) → Table Nat → Prop
  | nil {t : Table Nat} : Sheds t [] t
  | cons {t u : Table Nat} {s : Slot Nat} {slots : List (Slot Nat)} (hs : t.firstIdle? = some s)
      (h : Sheds (t.invalidate s.id).2 slots u) : Sheds t (s :: slots) u

/-- No slot is found idle if none is. -/
theorem firstIdle?_eq_none_iff : t.firstIdle? = none ↔ t.count .idle = 0 := by
  simp [firstIdle?, count, List.countP_eq_zero]

/-- The first idle slot is idle. -/
theorem state_of_firstIdle? (h : t.firstIdle? = some s) : s.state = .idle := by
  simpa using List.find?_some h

/-- The first idle slot is one of the slots. -/
theorem IsSound.isWith_firstIdle? (ht : t.IsSound) (h : t.firstIdle? = some s) :
    t.IsWith (s :: t.slots.erase s) t :=
  ht.isWith.perm (List.perm_cons_erase (List.mem_of_find?_eq_some h))

/-- Nothing is lost of a table without idle slots. -/
theorem Sheds.eq_nil (h : t.Sheds slots u) (ht : t.count .idle = 0) : slots = [] ∧ u = t := by
  cases h with
  | nil => exact ⟨rfl, rfl⟩
  | cons hs h =>
    rw [firstIdle?_eq_none_iff.2 ht] at hs
    cases hs

/-- The lost slots were idle, and all others stay. -/
theorem Sheds.parts (h : t.Sheds slots u) (ht : t.IsSound) :
    u.IsSound ∧ t.slots.Perm (slots ++ u.slots) ∧ (∀ s ∈ slots, s.state = .idle) ∧
      u.creating = t.creating ∧ u.nextId = t.nextId := by
  induction h with
  | nil => exact ⟨ht, .refl _, nofun, rfl, rfl⟩
  | @cons t u s slots hs h ih =>
    have hfirst := ht.isWith_firstIdle? hs
    have hleft := hfirst.invalidate
    obtain ⟨hu, hperm, hidle, hcreating, hnext⟩ := ih hleft.sound
    exact ⟨hu, hfirst.slots.trans ((hleft.slots.symm.trans hperm).cons s),
      List.forall_mem_cons.2 ⟨state_of_firstIdle? hs, hidle⟩, hcreating.trans hleft.creating,
      hnext.trans hleft.nextId⟩

/-- Losing the first idle slot leaves one idle slot less. -/
theorem IsSound.count_invalidate (ht : t.IsSound) (h : t.firstIdle? = some s) :
    (t.invalidate s.id).2.count .idle + 1 = t.count .idle := by
  have hfirst := ht.isWith_firstIdle? h
  rw [count, count, hfirst.slots.countP_eq, hfirst.invalidate.slots.countP_eq,
    List.countP_cons_of_pos (by simp [state_of_firstIdle? h])]

end Table

/-- A resource that an acquisition has checked: its slot as it was before, and what was said. -/
structure Trial where
  slot : Slot Nat
  result : Except CheckError Verdict

/-- The deeds of a check on access. A slot with an objection is destroyed. -/
def Trial.deeds (style : Option CheckStyle) (t : Trial) : List Entry :=
  checkDeeds style t.slot.resource .access t.result ++
    match Verdict.objection? t.result with
    | none => []
    | some reason =>
      [.event (.healthCheckFailed t.slot.id reason),
        .event (.resourceDestroyed t.slot.id .unhealthy)]

/-- What the search of an acquisition comes to. -/
inductive Supply
  /-- An idle slot is handed out. -/
  | idle (slot : Slot Nat)
  /-- A new resource is handed out. -/
  | fresh (slot : Slot Nat)
  /-- There is no capacity for a new resource. -/
  | full
  /-- A factory call has failed. -/
  | failed (error : CreationError)
  /-- As many new resources were rejected as the maximum counts. -/
  | spent

namespace Supply

/-- The slot that is handed out. -/
def slot? : Supply → Option (Slot Nat)
  | idle s | fresh s => some s
  | full | failed _ | spent => none

/-- The new slot that is handed out. -/
def fresh? : Supply → Option (Slot Nat)
  | fresh s => some s
  | idle _ | full | failed _ | spent => none

/-- When an acquisition comes to a supply: it has rejected all but the slots that remain, and then a
number of new resources. -/
inductive Follows (max tries : Nat) (factory : Routine (Behaviour Op Production))
    (remaining : Table Nat) (rejected : Nat) : Supply → Prop
  | idle {s} (hs : remaining.firstIdle? = some s) (hr : rejected = 0) :
      Follows max tries factory remaining rejected (.idle s)
  | full (hi : remaining.count .idle = 0) (hl : max ≤ remaining.live) (hr : rejected = 0) :
      Follows max tries factory remaining rejected .full
  | fresh {s} (hi : remaining.count .idle = 0) (hl : remaining.live < max) (hr : rejected < tries)
      (hf : ∀ i ≤ rejected, (factory.nth i).outcome.error? = none) :
      Follows max tries factory remaining rejected (.fresh s)
  | failed {error} (hi : remaining.count .idle = 0) (hl : remaining.live < max)
      (hr : rejected < tries) (hf : ∀ i < rejected, (factory.nth i).outcome.error? = none)
      (he : (factory.nth rejected).outcome.error? = some error) :
      Follows max tries factory remaining rejected (.failed error)
  | spent (hi : remaining.count .idle = 0) (hl : remaining.live < max) (hr : rejected = tries)
      (hf : ∀ i < rejected, (factory.nth i).outcome.error? = none) :
      Follows max tries factory remaining rejected .spent

/-- The table that is left when a number of new resources were rejected and a slot was changed by
its hand-out. -/
def leaves (handedOut : Slot Nat → Slot Nat) (rejected : Nat) (remaining : Table Nat) :
    Supply → Table Nat
  | idle s => remaining.modify s.id handedOut
  | fresh s => { remaining with nextId := remaining.nextId + rejected }.enter (handedOut s)
  | full | failed _ | spent => { remaining with nextId := remaining.nextId + rejected }

/-- The deeds that end an acquisition. -/
def deeds (style : Option CheckStyle) (inUse max : Nat) : Supply → List Entry
  | idle s => (Trial.mk s (.ok .healthy)).deeds style ++
      [.hook .acquired, .handedOut s.id s.resource]
  | fresh s => creationDeeds .acquire s.id 1 none ++ (Trial.mk s (.ok .healthy)).deeds style ++
      [.hook .acquired, .handedOut s.id s.resource]
  | failed error => creationDeeds .acquire 0 0 (some error) ++
      [.event (.poolExhausted inUse max), .hook .exhausted]
  | full | spent => [.event (.poolExhausted inUse max), .hook .exhausted]

end Supply

/-- The deeds of an acquisition that has rejected idle slots and new resources. -/
def acquireDeeds (style : Option CheckStyle) (inUse max : Nat) (tried created : List Trial)
    (supply : Supply) : List Entry :=
  tried.flatMap (·.deeds style) ++
    created.flatMap (fun t => creationDeeds .acquire t.slot.id 1 none ++ t.deeds style) ++
    supply.deeds style inUse max

/-- A slot that is handed out, with the time of its check if it was checked. -/
def Slot.leased (checked : Bool) (time : Instant) (s : Slot Nat) : Slot Nat :=
  { s with state := .inUse, lastCheck := if checked then some time else s.lastCheck }

namespace Bench

/-- How checks on access are made, or nothing if there are none. -/
def accessStyle (b : Bench) : Option CheckStyle :=
  if b.config.checkOnAccess then b.user.checkStyle else none

/-- The slot of the next new resource, which is claimed at once. -/
def newSlot (b : Bench) : Slot Nat :=
  ⟨b.table.nextId, b.made, .inUse, b.clock.read.now, b.clock.read.now, none⟩

/-- The state after a new resource was created. -/
def enlarged (b : Bench) : Bench :=
  { b with
    user := b.user.afterFactory 1
    made := b.made + 1
    clock := b.clock.read
    table := b.table.enter b.newSlot }

/-- The state after a slot was checked and rejected. -/
def rejecting (s : Slot Nat) (clock : Clock) (b : Bench) : Bench :=
  { b with
    user := b.user.afterCheck s.resource
    clock
    table := (b.table.invalidate s.id).2 }

/-- An acquisition from one state to another. It rejects the idle slots `tried`, then creates and
rejects up to `tries` new resources, and comes to a supply. -/
structure Acquires (b : Bench) (tries : Nat) (tried : List Trial) (remaining : Table Nat)
    (created : List Trial) (supply : Supply) (result : Except PoolError Lease) (c : Bench) :
    Prop where
  order : b.table.Sheds (tried.map (·.slot)) remaining
  supplied : supply.Follows b.config.maxCount tries b.user.factory remaining created.length
  unchecked : b.config.checkOnAccess = false → tried = [] ∧ created = []
  rejected : ∀ t ∈ tried ++ created, Verdict.objection? t.result ≠ none
  results : b.config.checkOnAccess = true →
    (tried ++ created).map (·.result) ++ supply.slot?.toList.map (fun _ => .ok .healthy) =
      b.user.checkedAll b.config.checkTimeout
        (((tried ++ created).map (·.slot) ++ supply.slot?.toList).map (·.resource))
  isFresh : Fresh .inUse b.table.nextId b.made b.clock.now c.clock.now
    (created.map (·.slot) ++ supply.fresh?.toList)
  made : c.made = b.made + created.length + supply.fresh?.toList.length
  table : ∃ time, b.clock.now ≤ time ∧ time ≤ c.clock.now ∧
    c.table = supply.leaves (Slot.leased b.config.checkOnAccess time) created.length remaining
  outcome : match supply.slot? with
    | some s => result = .ok { id := b.nextLease, slot := s.id, resource := s.resource } ∧
      c.leases = { id := b.nextLease, slot := s.id, resource := s.resource } :: b.leases ∧
      c.acquired = b.acquired + 1 ∧ c.exhausted = b.exhausted
    | none => result = .error (.exhausted (remaining.count .inUse) b.config.maxCount) ∧
      c.leases = b.leases ∧ c.acquired = b.acquired ∧ c.exhausted = b.exhausted + 1

end Bench

/-- Factory calls do not matter for health checks. -/
theorem UserCode.checkedAll_afterFactory (u : UserCode) (n : Nat) (limit : Duration)
    (resources : List Nat) :
    (u.afterFactory n).checkedAll limit resources = u.checkedAll limit resources := by
  induction resources generalizing u with
  | nil => rfl
  | cons resource others ih =>
    rw [checkedAll, checkedAll, checked_afterFactory, afterCheck_afterFactory, ih]

namespace Supply

variable {max tries k n : Nat} {factory : Routine (Behaviour Op Production)} {t : Table Nat}
  {supply : Supply}

/-- An acquisition that has begun to create does not come back to idle slots. -/
theorem Follows.succ (h : supply.Follows max tries (factory.skip 1) { t with nextId := n } k)
    (hi : t.count .idle = 0) (hl : t.live < max)
    (hf : (factory.nth 0).outcome.error? = none) :
    supply.Follows max (tries + 1) factory t (k + 1) := by
  have hsucceeds {m : Nat} (hm : ∀ i < m, ((factory.skip 1).nth i).outcome.error? = none) :
      ∀ i < m + 1, (factory.nth i).outcome.error? = none := by
    rintro (_ | i) hi
    · exact hf
    · have := hm i (Nat.lt_of_succ_lt_succ hi)
      rwa [Routine.nth_skip, Nat.add_comm] at this
  cases h with
  | idle hs => exact nomatch (Table.firstIdle?_eq_none_iff.2 hi).symm.trans hs
  | full _ hfull => exact absurd hfull (Nat.not_le.2 hl)
  | fresh _ _ hr hall =>
    refine .fresh hi hl (Nat.succ_lt_succ hr) fun i hle => ?_
    exact hsucceeds (fun i hlt => hall i (Nat.le_of_lt_succ hlt)) i (Nat.lt_succ_of_le hle)
  | failed _ _ hr hall he =>
    rw [Routine.nth_skip, Nat.add_comm] at he
    exact .failed hi hl (Nat.succ_lt_succ hr) (hsucceeds hall) he
  | spent _ _ hr hall => exact .spent hi hl (congrArg _ hr) (hsucceeds hall)

theorem Follows.leaves_succ
    (h : supply.Follows max tries factory { t with nextId := t.nextId + 1 } k)
    (hi : t.count .idle = 0) (handedOut : Slot Nat → Slot Nat) :
    supply.leaves handedOut k { t with nextId := t.nextId + 1 } =
      supply.leaves handedOut (k + 1) t := by
  have hid : t.nextId + 1 + k = t.nextId + (k + 1) := Nat.add_right_comm ..
  cases h with
  | idle hs => exact nomatch (Table.firstIdle?_eq_none_iff.2 hi).symm.trans hs
  | full | fresh | failed | spent => simp only [leaves, hid]

end Supply

theorem Bench.factory_rejecting (b : Bench) (s : Slot Nat) (clock : Clock) :
    (b.rejecting s clock).user.factory = b.user.factory :=
  b.user.factory_afterCheck s.resource

/-- A new resource that was rejected leaves only its number behind. -/
theorem Bench.table_rejecting_enlarged {b : Bench} (ht : b.table.IsSound) (clock : Clock) :
    (b.enlarged.rejecting b.newSlot clock).table =
      { b.table with nextId := b.table.nextId + 1 } :=
  congrArg Prod.snd (ht.invalidate_enter rfl)

namespace Bench.Acquires

variable {b c : Bench} {tries : Nat} {tried created : List Trial} {remaining : Table Nat}
  {supply : Supply} {result : Except PoolError Lease} {s : Slot Nat} {reason : String}
  {clock : Clock} {now : Instant}

/-- An idle slot is rejected before others. -/
theorem reject
    (h : (b.rejecting s clock).Acquires tries tried remaining created supply result c)
    (hs : b.table.firstIdle? = some s) (hc : b.config.checkOnAccess = true)
    (hr : Verdict.objection? (b.user.checked b.config.checkTimeout s.resource) = some reason)
    (hle : b.clock.now ≤ clock.now) :
    b.Acquires tries (⟨s, b.user.checked b.config.checkTimeout s.resource⟩ :: tried) remaining
      created supply result c where
  order := .cons hs h.order
  supplied := b.factory_rejecting s clock ▸ h.supplied
  unchecked hf := absurd (hc.symm.trans hf) nofun
  rejected := List.forall_mem_cons.2 ⟨by simp [hr], h.rejected⟩
  results _ := congrArg (List.cons _) (h.results hc)
  isFresh := b.table.nextId_invalidate s.id ▸ h.isFresh.mono hle
  made := h.made
  table := by
    obtain ⟨time, hsince, htill, ht⟩ := h.table
    exact ⟨time, Nat.le_trans hle hsince, htill, ht⟩
  outcome := h.outcome

/-- A new resource is rejected before others. -/
theorem recreate
    (h : (b.enlarged.rejecting b.newSlot clock).Acquires tries tried remaining created supply result
      c)
    (ht : b.table.IsSound) (hi : b.table.count .idle = 0) (hl : b.table.live < b.config.maxCount)
    (hf : (b.user.factory.nth 0).outcome.error? = none) (hc : b.config.checkOnAccess = true)
    (hr : Verdict.objection? (b.user.checked b.config.checkTimeout b.made) = some reason)
    (hle : b.clock.read.now ≤ clock.now) :
    tried = [] ∧ remaining = { b.table with nextId := b.table.nextId + 1 } ∧
      b.Acquires (tries + 1) [] b.table
        (⟨b.newSlot, b.user.checked b.config.checkTimeout b.made⟩ :: created) supply result c := by
  have htable := table_rejecting_enlarged ht clock
  obtain ⟨hnil, rfl⟩ := h.order.eq_nil (htable ▸ hi)
  rw [List.map_eq_nil_iff] at hnil
  subst hnil
  have hsupplied := h.supplied
  rw [htable, factory_rejecting] at hsupplied
  have hresults := h.results hc
  have hfresh := h.isFresh
  obtain ⟨time, hsince, htill, hleaves⟩ := h.table
  rw [htable] at hfresh hleaves
  refine ⟨rfl, htable, ?_⟩
  exact {
    order := .nil
    supplied := hsupplied.succ hi hl hf
    unchecked := fun hoff => absurd (hc.symm.trans hoff) nofun
    rejected := List.forall_mem_cons.2 ⟨by simp [hr], h.rejected⟩
    results := fun _ => by
      refine congrArg (List.cons _) (hresults.trans ?_)
      change ((b.user.afterFactory 1).afterCheck b.made).checkedAll _ _ = _
      rw [UserCode.afterCheck_afterFactory, UserCode.checkedAll_afterFactory]
      rfl
    isFresh := (hfresh.mono hle).cons b.clock.now_le_read
      (Nat.le_trans hle (Nat.le_trans hsince htill))
    made := by
      have := h.made
      simp only [List.length_cons, Bench.rejecting, Bench.enlarged] at this ⊢
      omega
    table := ⟨time, Nat.le_trans (Nat.le_trans b.clock.now_le_read hle) hsince, htill,
      hleaves.trans (hsupplied.leaves_succ hi _)⟩
    outcome := by
      have := h.outcome
      rw [htable] at this
      exact this }

/-- The first idle slot is handed out. -/
theorem of_idle (hs : b.table.firstIdle? = some s)
    (hr : b.config.checkOnAccess = true →
      b.user.checked b.config.checkTimeout s.resource = .ok .healthy)
    (hsince : b.clock.now ≤ now) (htill : now ≤ c.clock.now)
    (ht : c.table = b.table.modify s.id (Slot.leased b.config.checkOnAccess now))
    (hm : c.made = b.made)
    (hl : c.leases = { id := b.nextLease, slot := s.id, resource := s.resource } :: b.leases)
    (ha : c.acquired = b.acquired + 1) (he : c.exhausted = b.exhausted) :
    b.Acquires tries [] b.table [] (.idle s)
      (.ok { id := b.nextLease, slot := s.id, resource := s.resource }) c where
  order := .nil
  supplied := .idle hs rfl
  unchecked _ := ⟨rfl, rfl⟩
  rejected := nofun
  results hc := congrArg (fun result => [result]) (hr hc).symm
  isFresh := .nil ..
  made := hm
  table := ⟨now, hsince, htill, ht⟩
  outcome := ⟨rfl, hl, ha, he⟩

/-- With room and a working factory, a new resource that passes its check is handed out. -/
theorem of_fresh (hi : b.table.count .idle = 0) (hroom : b.table.live < b.config.maxCount)
    (hpos : 0 < tries) (hf : (b.user.factory.nth 0).outcome.error? = none)
    (hr : b.config.checkOnAccess = true →
      b.user.checked b.config.checkTimeout b.made = .ok .healthy)
    {time : Instant} (hsince : b.clock.now ≤ now) (htime : now ≤ time) (htill : time ≤ c.clock.now)
    (ht : c.table = b.table.enter (Slot.leased b.config.checkOnAccess time
      ⟨b.table.nextId, b.made, .inUse, now, now, none⟩))
    (hm : c.made = b.made + 1)
    (hl : c.leases = { id := b.nextLease, slot := b.table.nextId, resource := b.made } :: b.leases)
    (ha : c.acquired = b.acquired + 1) (he : c.exhausted = b.exhausted) :
    b.Acquires tries [] b.table [] (.fresh ⟨b.table.nextId, b.made, .inUse, now, now, none⟩)
      (.ok { id := b.nextLease, slot := b.table.nextId, resource := b.made }) c where
  order := .nil
  supplied := .fresh hi hroom hpos fun i hle => by rwa [Nat.le_zero.1 hle]
  unchecked _ := ⟨rfl, rfl⟩
  rejected := nofun
  results hc := congrArg (fun result => [result]) (hr hc).symm
  isFresh := .cons (.nil ..) hsince (Nat.le_trans htime htill)
  made := hm
  table := ⟨time, Nat.le_trans hsince htime, htill, ht⟩
  outcome := ⟨rfl, hl, ha, he⟩

/-- The acquisition is refused. -/
theorem of_refusal
    (hf : supply.Follows b.config.maxCount tries b.user.factory b.table 0)
    (hs : supply.slot? = none) (hle : b.clock.now ≤ c.clock.now) (ht : c.table = b.table)
    (hm : c.made = b.made) (hl : c.leases = b.leases) (ha : c.acquired = b.acquired)
    (he : c.exhausted = b.exhausted + 1) :
    b.Acquires tries [] b.table [] supply
      (.error (.exhausted (b.table.count .inUse) b.config.maxCount)) c := by
  have hfresh : supply.fresh? = none := by
    cases supply with
    | idle | fresh => cases hs
    | full | failed | spent => rfl
  have hleaves (handedOut : Slot Nat → Slot Nat) : supply.leaves handedOut 0 b.table = b.table := by
    cases supply with
    | idle | fresh => cases hs
    | full | failed | spent => rfl
  exact {
    order := .nil
    supplied := hf
    unchecked := fun _ => ⟨rfl, rfl⟩
    rejected := nofun
    results := fun _ => by rw [hs]; rfl
    isFresh := by rw [hfresh]; exact .nil ..
    made := by rw [hfresh]; exact hm
    table := ⟨b.clock.now, Nat.le_refl _, hle, ht.trans (hleaves _).symm⟩
    outcome := by rw [hs]; exact ⟨rfl, hl, ha, he⟩ }

end Bench.Acquires

/-- Whether an entry tells of a factory call. -/
def Entry.isFactory : Entry → Bool
  | .factory _ => true
  | _ => false

theorem Trial.countP_factory (style : Option CheckStyle) (t : Trial) :
    (t.deeds style).countP (·.isFactory) = 0 := by
  unfold Trial.deeds checkDeeds
  cases style <;> cases Verdict.objection? t.result <;> rfl

/-- An acquisition calls the factory at most as often as it may try. -/
theorem Supply.Follows.calls_le {max tries : Nat} {factory : Routine (Behaviour Op Production)}
    {remaining : Table Nat} {tried created : List Trial} {supply : Supply}
    (h : supply.Follows max tries factory remaining created.length) (style : Option CheckStyle)
    (inUse : Nat) :
    (acquireDeeds style inUse max tried created supply).countP (·.isFactory) ≤ tries := by
  have hone (id : Nat) : (creationDeeds .acquire id 1 none).countP (·.isFactory) = 1 := rfl
  have htried : (tried.flatMap (·.deeds style)).countP (·.isFactory) = 0 := by
    refine List.countP_eq_zero.2 fun e he => ?_
    obtain ⟨t, -, he⟩ := List.mem_flatMap.1 he
    exact List.countP_eq_zero.1 (t.countP_factory style) e he
  have hcreated : (created.flatMap fun t => creationDeeds .acquire t.slot.id 1 none ++
      t.deeds style).countP (·.isFactory) = created.length := by
    clear h
    induction created with
    | nil => rfl
    | cons t others ih =>
      rw [List.flatMap_cons, List.countP_append, List.countP_append, hone, t.countP_factory, ih,
        List.length_cons, Nat.add_comm]
  rw [acquireDeeds, List.countP_append, List.countP_append, htried, hcreated, Nat.zero_add]
  have hlast (s : Slot Nat) (calls : List Entry) :
      (calls ++ (Trial.mk s (.ok .healthy)).deeds style ++
        [Entry.hook .acquired, .handedOut s.id s.resource]).countP (·.isFactory) =
      calls.countP (·.isFactory) := by
    rw [List.countP_append, List.countP_append, Trial.countP_factory]
    rfl
  cases h with
  | @idle s _ hr =>
    have hnone := hlast s []
    rw [List.nil_append] at hnone
    rw [Supply.deeds, hnone, hr]
    exact Nat.zero_le _
  | full _ _ hr =>
    rw [hr]
    exact Nat.zero_le _
  | @fresh s _ _ hr => rwa [Supply.deeds, hlast, hone]
  | failed _ _ hr => exact hr
  | spent _ _ hr => exact Nat.le_of_eq hr

end LeasePool
