import LeasePool.Proofs.History
import LeasePool.Proofs.Table

/-!
# Capacity

The slots of a pool and its reserved creations never exceed the maximum of its configuration, and
each reservation in the table is held by a running operation or by a caller.
-/

namespace LeasePool

namespace Pool

variable {p q : Pool} {callers : Nat}

/-- The reservations that the running operations hold. -/
def reservations (p : Pool) : Nat := p.holdings.count .reservation

/-- The table is in good order and within the maximum, its reservations are those held by running
operations and by callers, and only those were given back. The maximum is a word. -/
structure Fits (p : Pool) (callers : Nat := 0) : Prop where
  sound : p.table.IsSound
  creating : p.table.creating = p.reservations + callers
  overdrawn : p.table.overdrawn = 0
  bounded : p.table.slots.length + p.table.creating ≤ p.config.maxCount
  word : p.config.maxCount ≤ countLimit

/-- Nothing wraps around in a table that is within its maximum. -/
theorem Fits.suits (hp : p.Fits callers) : p.table.Suits p.config.maxCount where
  toIsSound := hp.sound
  bounded := hp.bounded
  max_le := hp.word

/-- Below another holding the reservations are those of the rest. -/
theorem reservations_cons {h : Holding} {rest : List Holding} (hp : p.holdings = h :: rest)
    (hh : h ≠ .reservation) : p.reservations = rest.count .reservation := by
  rw [reservations, hp, List.count_cons_of_ne hh]

/-- Taking another holding keeps the reservations. -/
theorem reservations_hold {h : Holding} (hh : h ≠ .reservation) :
    (p.hold h).reservations = p.reservations :=
  List.count_cons_of_ne hh

/-- Putting another holding away keeps the reservations. -/
theorem reservations_unhold {h : Holding} (hh : h ≠ .reservation) :
    (p.unhold h).reservations = p.reservations :=
  List.count_erase_of_ne hh.symm

/-- Exchanging other holdings keeps the reservations. -/
theorem reservations_exchange {h other : Holding} (hh : h ≠ .reservation)
    (ho : other ≠ .reservation) : (p.exchange h other).reservations = p.reservations :=
  (reservations_hold ho).trans (reservations_unhold hh)

/-- Holdings that are no reservations count for nothing. -/
theorem reservations_append {K : List Holding} (hK : .reservation ∉ K) (H : List Holding) :
    (K ++ H).count .reservation = H.count .reservation := by
  rw [List.count_append, List.count_eq_zero.2 hK, Nat.zero_add]

/-- Taking slots out holds no reservation. -/
theorem reservations_takeOut (reason : DestroyReason) (slots : List (Slot Nat))
    (H : List Holding) :
    (slots.map (Holding.removed reason) ++ H).count .reservation = H.count .reservation :=
  reservations_append (by simp) H

/-- A reservation that is held is counted in the table. -/
theorem Fits.creating_pos (hp : p.Fits callers) (hr : .reservation ∈ p.holdings) :
    0 < p.table.creating :=
  hp.creating ▸ Nat.add_pos_left (List.count_pos_iff.2 hr) callers

/-- A pool stays within its maximum if its table and its reservations stay. -/
theorem Fits.of_eq (hp : p.Fits callers) (hc : q.config = p.config) (ht : q.table = p.table)
    (hr : q.reservations = p.reservations) : q.Fits callers where
  sound := ht ▸ hp.sound
  creating := by rw [ht, hr, hp.creating]
  overdrawn := by rw [ht, hp.overdrawn]
  bounded := by rw [ht, hc]; exact hp.bounded
  word := hc ▸ hp.word

/-- A pool stays within its maximum if a slot changes. -/
theorem Fits.modify (hp : p.Fits callers) {id : Nat} {change : Slot Nat → Slot Nat}
    (hc : q.config = p.config) (ht : q.table = p.table.modify id change)
    (hr : q.reservations = p.reservations) (hid : ∀ s, (change s).id = s.id)
    (hvalid : ∀ s, s.state ≠ .invalid → (change s).state ≠ .invalid) : q.Fits callers where
  sound := ht ▸ hp.sound.modify hid hvalid
  creating := by rw [ht, hr, Table.creating_modify, hp.creating]
  overdrawn := by
    rw [ht]
    exact hp.overdrawn
  bounded := by
    rw [ht, hc, Table.creating_modify]
    simpa [Table.modify] using hp.bounded
  word := hc ▸ hp.word

/-- A pool stays within its maximum if slots leave the table. -/
theorem Fits.prune (hp : p.Fits callers) {taken : List (Slot Nat)} (hc : q.config = p.config)
    (ht : p.table.Prunes q.table taken) (hr : q.reservations = p.reservations) :
    q.Fits callers where
  sound := ht.isSound hp.sound
  creating := by rw [ht.creating, hr, hp.creating]
  overdrawn := by rw [ht.overdrawn, hp.overdrawn]
  bounded := by
    have := hp.bounded
    have := ht.length_le
    rw [ht.creating, hc]
    omega
  word := hc ▸ hp.word

/-- A new slot takes the place of a reservation. -/
theorem Fits.commit (hp : p.Fits callers) {resource : Nat} {state : SlotState} {origin : Origin}
    (hs : state = .idle ∨ state = .inUse) (hr : .reservation ∈ p.holdings) :
    (PoolM.commit resource state origin p).2.Fits callers := by
  have hpos : 0 < p.table.creating := hp.creating_pos hr
  have hheld : 0 < p.reservations := List.count_pos_iff.2 hr
  have hcreating := hp.creating
  have hbounded := hp.bounded
  have hleft : (PoolM.commit resource state origin p).2.reservations = p.reservations - 1 := by
    change ((if state = .inUse then [Holding.slot .claim p.table.nextId resource] else []) ++
      (p.holdings.erase (.product resource)).erase .reservation).count Holding.reservation = _
    have hclaims : (if state = SlotState.inUse then [Holding.slot .claim p.table.nextId resource]
        else []).count .reservation = 0 := by
      split <;> rfl
    rw [List.count_append, hclaims, List.count_erase_self, List.count_erase_of_ne (by simp)]
    simp [reservations]
  have htable : (PoolM.commit resource state origin p).2.table =
      (p.table.commit resource state p.clock.read.now).2 := rfl
  refine ⟨?_, ?_, ?_, ?_, hp.word⟩
  · rw [htable]
    apply hp.sound.commit
    rcases hs with rfl | rfl <;> nofun
  · rw [hleft, htable]
    change p.table.creating - 1 = p.reservations - 1 + callers
    omega
  · exact (Table.overdrawn_unreserve hpos).trans hp.overdrawn
  · rw [htable]
    change (_ ++ [_]).length + (p.table.creating - 1) ≤ p.config.maxCount
    rw [List.length_append, List.length_singleton]
    omega

/-- No grant takes a pool past its maximum, whoever holds the reservations. -/
theorem Fits.grant (hp : p.Fits callers) {wanted others : Nat} (hc : q.config = p.config)
    (ht : q.table = (p.table.reserve wanted p.config.maxCount).2)
    (hr : q.reservations + others =
      p.reservations + callers + (p.table.reserve wanted p.config.maxCount).1) :
    q.Fits others := by
  have hlive := hp.suits.live_eq
  have hbounded := hp.bounded
  rw [hp.suits.reserve_eq] at ht hr
  refine ⟨?_, ?_, ?_, ?_, hc ▸ hp.word⟩
  · rw [ht]
    exact ⟨hp.sound.nodup, hp.sound.fresh, hp.sound.valid⟩
  · rw [ht, hr, ← hp.creating]
  · rw [ht]
    exact hp.overdrawn
  · rw [ht, hc]
    change p.table.slots.length +
      (p.table.creating + min wanted (p.config.maxCount - p.table.live)) ≤ p.config.maxCount
    omega

/-- A reservation that was held is given back. -/
theorem Fits.giveBack (hp : p.Fits callers) {others : Nat} (hc : q.config = p.config)
    (ht : q.table = p.table.unreserve)
    (hr : q.reservations + others + 1 = p.reservations + callers) : q.Fits others := by
  have hcreating := hp.creating
  have hbounded := hp.bounded
  have hpos : 0 < p.table.creating := by omega
  refine ⟨?_, ?_, ?_, ?_, hc ▸ hp.word⟩
  · rw [ht]
    exact ⟨hp.sound.nodup, hp.sound.fresh, hp.sound.valid⟩
  · rw [ht]
    change p.table.creating - 1 = _
    omega
  · rw [ht]
    exact (Table.overdrawn_unreserve hpos).trans hp.overdrawn
  · rw [ht, hc]
    change p.table.slots.length + (p.table.creating - 1) ≤ p.config.maxCount
    omega

/-- A running operation takes reservations. -/
theorem Fits.reserve (hp : p.Fits callers) (origin : Origin) (wanted : Nat) :
    (PoolM.reserve origin wanted p).2.Fits callers := by
  refine hp.grant rfl rfl ?_
  change (List.replicate (p.table.reserve wanted p.config.maxCount).1 Holding.reservation ++
    p.holdings).count .reservation + callers = _
  rw [List.count_append, List.count_replicate_self, reservations]
  omega

/-- A running operation gives a reservation back. -/
theorem Fits.unreserve (hp : p.Fits callers) (hr : .reservation ∈ p.holdings) :
    ((p.onTable (·.unreserve)).unhold .reservation).Fits callers := by
  have hheld : 0 < p.reservations := List.count_pos_iff.2 hr
  refine hp.giveBack rfl rfl ?_
  change (p.holdings.erase .reservation).count .reservation + callers + 1 = _
  rw [List.count_erase_self, ← reservations]
  omega

/-- Every step keeps a pool within its maximum. -/
theorem Fits.step (hp : p.Fits callers) (h : p.Step q) : q.Fits callers := by
  cases h with
  | commit resource state origin hs _ _ hr => exact hp.commit hs hr
  | reserve origin wanted => exact hp.reserve origin wanted
  | unreserve hr => exact hp.unreserve hr
  | make => exact hp.of_eq rfl rfl (reservations_hold (by simp))
  | claim s t h =>
    obtain ⟨s', -, -, -, rfl⟩ := Table.claimIdle_eq_some h
    exact hp.modify rfl rfl (reservations_hold (by simp)) (fun _ => rfl) fun _ _ => nofun
  | park id s t h =>
    obtain ⟨s', -, -, -, -, rfl⟩ := Table.claimForCheck_eq_some h
    exact hp.modify rfl rfl (reservations_hold (by simp)) (fun _ => rfl) fun _ _ => nofun
  | confirm => exact hp.modify rfl rfl rfl (fun _ => rfl) fun _ => id
  | countAcquired =>
    exact hp.of_eq rfl rfl (reservations_exchange (by simp) (by simp))
  | beginLease => exact hp.of_eq rfl rfl (reservations_exchange (by simp) (by simp))
  | nameHandle =>
    exact hp.of_eq rfl rfl ((reservations_append (by simp) _).trans (reservations_unhold (by simp)))
  | unnameHandle => exact hp.of_eq rfl rfl (reservations_append (by simp) _)
  | cloneHandle | refer => exact hp.of_eq rfl rfl (reservations_hold (by simp))
  | letGoHandle => exact hp.of_eq rfl rfl (reservations_unhold (by simp))
  | endLease l =>
    exact hp.of_eq rfl rfl (reservations_exchange (h := .handle l.id) (by simp) (by simp))
  | giveBack =>
    exact hp.modify rfl rfl (reservations_exchange (by simp) (by simp)) (fun _ => rfl)
      fun _ _ => nofun
  | reinstate =>
    exact hp.modify rfl rfl (reservations_exchange (by simp) (by simp)) (PoolM.id_passed _)
      (PoolM.state_passed_ne_invalid _)
  | unpark =>
    exact hp.modify rfl rfl (reservations_exchange (by simp) (by simp)) PoolM.id_unparked
      PoolM.state_unparked_ne_invalid
  | giveUp lease =>
    exact hp.prune rfl (Table.prunes_invalidate hp.sound.nodup _)
      ((reservations_takeOut _ _ _).trans
        (reservations_exchange (h := .slot .release lease.slot lease.resource) (by simp) (by simp)))
  | takeOutBroken tenure id resource =>
    exact hp.prune rfl (Table.prunes_invalidate hp.sound.nodup _)
      ((reservations_takeOut _ _ _).trans
        (reservations_exchange (h := .slot tenure id resource) (by simp) (by simp)))
  | takeOutLru n =>
    exact hp.prune rfl (Table.prunes_removeIdleLru n _) (reservations_takeOut _ _ _)
  | takeOutExpired f =>
    exact hp.prune rfl (Table.prunes_removeIdleWhere f _) (reservations_takeOut _ _ _)
  | drain => exact hp.prune rfl (Table.prunes_drain _) (reservations_takeOut _ _ _)
  | destroyOne =>
    rw [bury_eq]
    exact hp.of_eq rfl rfl (reservations_unhold (by simp))
  | letGo h resource hk =>
    rw [discard_eq]
    refine hp.of_eq rfl rfl (reservations_unhold ?_)
    rcases hk with rfl | rfl <;> simp
  | lose h rest resource hh hr =>
    rw [settle_eq]
    refine hp.of_eq rfl rfl (reservations_cons hh ?_).symm
    rintro rfl
    cases hr
  | _ => exact hp.of_eq rfl rfl rfl

/-- A pool that fits its maximum does so after any steps. -/
theorem Fits.steps (hp : p.Fits callers) (h : p.Steps q) : q.Fits callers :=
  h.invariant (I := fun q => q.Fits callers) (fun _ _ => Fits.step) hp

/-- A new pool fits its maximum. -/
theorem Fits.of_isNew (hp : p.IsNew) : p.Fits := by
  obtain ⟨name, config, user, delegates, clock, -, hw⟩ := hp
  refine ⟨⟨.nil, ?_, ?_⟩, rfl, rfl, Nat.zero_le _, hw⟩
  · exact fun _ hs => absurd hs List.not_mem_nil
  · exact fun _ hs => absurd hs List.not_mem_nil

/-- A pool fits its maximum at any moment of a run. -/
theorem Arises.fits (h : q.Arises) : q.Fits :=
  h.invariant (fun _ => Fits.of_isNew) fun _ _ => Fits.step

/-- A pool fits its maximum after each operation of a run. -/
theorem Occurs.fits (h : q.Occurs) : q.Fits := h.arises.fits

/-- A table in good order whose slots and reservations are within a maximum, which is a word. -/
def Within (t : Table Nat) (max : Nat) : Prop :=
  t.Suits max ∧ t.slots.length + t.creating ≤ max

/-- Whatever table could be seen in a run was within the maximum. -/
theorem Occurs.within (h : q.Occurs) :
    ∀ t ∈ q.table :: q.history.map (·.seen.table), Within t q.config.maxCount := by
  obtain ⟨hnow, hpast⟩ := h.seen (S := fun config s => Within s.table config.maxCount)
    (fun _ => Fits.of_isNew) (fun _ _ => Fits.step) fun _ hp => ⟨hp.suits, hp.bounded⟩
  intro t ht
  rcases List.mem_cons.1 ht with rfl | ht
  · exact hnow
  · obtain ⟨r, hr, rfl⟩ := List.mem_map.1 ht
    exact hpast r hr

/-- At every moment of a run that user code or a caller can look at, the live resources are within
the maximum, no slot is broken, a status counts exactly the live resources, and no sum that the pool
computes exceeds a word, so that none of them wraps around. -/
theorem Occurs.capacity_bound (h : q.Occurs) :
    ∀ t ∈ q.table :: q.history.map (·.seen.table),
      t.live ≤ q.config.maxCount ∧ (∀ s ∈ t.slots, s.state ≠ .invalid) ∧
      (∀ desired, (t.status q.config desired).live = t.live) ∧
      t.live = t.slots.length + t.creating ∧ t.slots.length + t.creating < UInt64.size ∧
      ∀ wanted, t.creating + (t.reserve wanted q.config.maxCount).1 < UInt64.size := by
  intro t ht
  obtain ⟨hsuits, hbound⟩ := h.within t ht
  have hlive := hsuits.live_eq
  have hmax : q.config.maxCount < UInt64.size := Nat.lt_of_le_pred (by decide) hsuits.max_le
  refine ⟨by omega, hsuits.valid, live_status hsuits.valid q.config, hlive, by omega,
    fun wanted => ?_⟩
  rw [hsuits.reserve_eq]
  dsimp only
  omega

/-- A factory call of a pool that is full with it tries to acquire. The bound holds throughout, also
while the creation is under way. -/
theorem capacity_bound_creating :
    let user : UserCode :=
      { UserCode.plain with factory := ⟨[⟨[], .success⟩], ⟨[.acquire "c"], .success⟩⟩ }
    let p := (PoolM.run 3 (.acquire "a") (new "pool" { maxCount := 2 } user)).2
    let q := (PoolM.run 3 (.acquire "b") p).2
    q.table.live = 2 ∧
      (∃ r ∈ q.history, r.depth = 2 ∧ r.seen.table.slots.length = 1 ∧
        r.seen.table.creating = 1) ∧
      ∀ r ∈ q.history, r.seen.table.live ≤ 2 := by
  intro user p q
  have hop : ∀ handle, Op.IsPublic (.acquire handle) := fun _ => .of_installs_eq_nil rfl rfl
  have huser : user.IsPublic :=
    { UserCode.plain_runs _ with factory := List.forall_mem_singleton.2 (hop "c") }
  have hstart : Reachable (new "pool" { maxCount := 2 } user) :=
    reachable_new "pool" _ huser (by decide)
  have hp : p.Reachable := hstart.next (hop "a") (by decide +kernel)
  have hq : q.Occurs := .intro hp (hop "b") 3
  have hbound := hq.capacity_bound
  have hmax : q.config.maxCount = 2 := by decide +kernel
  refine ⟨by decide +kernel, by decide +kernel, fun r hr => ?_⟩
  have hlive := (hbound _ (List.mem_cons_of_mem _ (List.mem_map_of_mem hr))).1
  rwa [hmax] at hlive

end Pool

end LeasePool
