import LeasePool.Proofs.Capacity

/-!
# Refills that overlap

Both jobs refill a pool: they reserve what is missing to the target, and create resources for it one
after another, outside of the table. Meanwhile other cycles may do the same, inside of the calls of
the factory, of the health check and of the hook. Reservations count as live, so what one cycle is
about to create is not missing for another one.
-/

namespace LeasePool

/-- The capacity that was reserved for an acquisition, by the entry that says so. -/
def Entry.acquiring : Entry → Nat
  | .reserved .acquire granted => granted
  | _ => 0

namespace Pool

variable {p q : Pool} {callers : Nat}

/-- Slots and reservations become no more in a table. -/
def Shrinks (t u : Table Nat) : Prop :=
  u.slots.length + u.creating ≤ t.slots.length + t.creating

/-- Changing a slot does not let a table grow. -/
theorem shrinks_modify (t : Table Nat) (id : Nat) (change : Slot Nat → Slot Nat) :
    Shrinks t (t.modify id change) := by
  simp [Shrinks, Table.modify]

/-- Taking slots out does not let a table grow. -/
theorem shrinks_of_prunes {t u : Table Nat} {taken : List (Slot Nat)} (h : t.Prunes u taken) :
    Shrinks t u := by
  have := h.length_le
  rw [Shrinks, h.creating]
  omega

/-- A new slot takes the place of a reservation. -/
theorem Fits.shrinks_commit (hp : p.Fits callers) (hr : .reservation ∈ p.holdings) (resource : Nat)
    (state : SlotState) (now : Instant) :
    Shrinks p.table (p.table.commit resource state now).2 := by
  have hpos := hp.creating_pos hr
  change (_ ++ [_]).length + (p.table.creating - 1) ≤ _
  rw [List.length_append, List.length_singleton]
  omega

/-- Only a reservation adds to what is live. -/
theorem Step.shrinks_or_reserve (h : p.Step q) (hp : p.Fits callers) :
    Shrinks p.table q.table ∨ ∃ origin wanted,
      (origin ≠ .acquire → wanted = p.desired - p.table.live) ∧
      q = (PoolM.reserve origin wanted p).2 := by
  cases h with
  | reserve origin wanted hw => exact .inr ⟨origin, wanted, hw, rfl⟩
  | commit resource state origin _ _ _ hr => exact .inl (hp.shrinks_commit hr resource state _)
  | unreserve =>
    refine .inl ?_
    change p.table.slots.length + (p.table.creating - 1) ≤ p.table.slots.length + p.table.creating
    omega
  | claim s t h =>
    obtain ⟨s', -, -, -, rfl⟩ := Table.claimIdle_eq_some h
    exact .inl (shrinks_modify _ _ _)
  | park id s t h =>
    obtain ⟨s', -, -, -, -, rfl⟩ := Table.claimForCheck_eq_some h
    exact .inl (shrinks_modify _ _ _)
  | confirm | giveBack | reinstate | unpark => exact .inl (shrinks_modify _ _ _)
  | giveUp | takeOutBroken =>
    exact .inl (shrinks_of_prunes (Table.prunes_invalidate hp.sound.nodup _))
  | takeOutLru n => exact .inl (shrinks_of_prunes (Table.prunes_removeIdleLru n _))
  | takeOutExpired f => exact .inl (shrinks_of_prunes (Table.prunes_removeIdleWhere f _))
  | drain => exact .inl (shrinks_of_prunes (Table.prunes_drain _))
  | destroyOne =>
    rw [bury_eq]
    exact .inl (Nat.le_refl _)
  | letGo =>
    rw [discard_eq]
    exact .inl (Nat.le_refl _)
  | lose =>
    rw [settle_eq]
    exact .inl (Nat.le_refl _)
  | _ => exact .inl (Nat.le_refl _)

/-- The most that may be live while nothing but the jobs reserves capacity. -/
def ceiling (p : Pool) : Nat := max p.table.live (min p.desired p.config.maxCount)

/-- What a job reserves fills the pool up to its target, and to its maximum. -/
theorem live_reserve_le {origin : Origin} {wanted limit : Nat}
    (hw : origin ≠ .acquire → wanted = p.desired - p.table.live)
    (ha : (Entry.reserved origin (p.table.reserve wanted p.config.maxCount).1).acquiring = 0)
    (hl : p.table.live ≤ limit) (hd : min p.desired p.config.maxCount ≤ limit) :
    (PoolM.reserve origin wanted p).2.table.live ≤ limit := by
  have hlive : (PoolM.reserve origin wanted p).2.table.live ≤
      p.table.live + (p.table.reserve wanted p.config.maxCount).1 :=
    Nat.le_trans (Nat.le_of_eq (Table.live_reserve ..)) (Nat.mod_le _ _)
  refine Nat.le_trans hlive ?_
  cases origin with
  | acquire =>
    have hnone : (p.table.reserve wanted p.config.maxCount).1 = 0 := ha
    omega
  | countKeeper | healthCareJob =>
    rw [hw (by simp), Table.reserve]
    dsimp only
    omega

/-- The target stays as it is in a part of a history, and no capacity is reserved for acquisitions.
-/
def Undisturbed (desired : Nat) (new : List Record) : Prop :=
  ∀ r ∈ new, r.seen.desired = desired ∧ r.entry.acquiring = 0

/-- A step does not take what is live past a limit that is not below the target. -/
theorem Step.live_le (h : p.Step q) (hp : p.Fits callers) {desired limit : Nat} {new : List Record}
    (hnew : q.history = new ++ p.history) (hu : Undisturbed desired new)
    (hl : p.table.live ≤ limit) (hd : min desired p.config.maxCount ≤ limit) :
    q.table.live ≤ limit := by
  rcases h.shrinks_or_reserve hp with hshrinks | ⟨origin, wanted, hw, rfl⟩
  · have hq := hp.step h
    rw [hp.suits.live_eq] at hl
    rw [hq.suits.live_eq]
    exact Nat.le_trans hshrinks hl
  · obtain ⟨r, hr⟩ : ∃ r, (PoolM.reserve origin wanted p).2.history = r :: p.history := ⟨_, rfl⟩
    have hlast : new = [r] := List.append_cancel_right (hnew.symm.trans hr)
    obtain ⟨hfixed, ha⟩ := hu r (by simp [hlast])
    obtain ⟨rfl, -⟩ := List.cons.inj hr
    have hfixed : p.desired = desired := hfixed
    exact live_reserve_le hw ha hl (hfixed ▸ hd)

/-- No sequence of steps takes what is live past the ceiling, if meanwhile the target stays as it is
and only the jobs reserve capacity. -/
theorem Steps.live_le_ceiling (h : p.Steps q) (hp : p.Fits callers) {new : List Record}
    (hnew : q.history = new ++ p.history) (hu : Undisturbed p.desired new) :
    ∀ s ∈ q.sight :: new.map (·.seen), s.table.live ≤ p.ceiling := by
  induction h generalizing new with
  | refl =>
    obtain rfl : new = [] := List.append_cancel_right (hnew.symm.trans (List.nil_append _).symm)
    exact List.forall_mem_singleton.2 (Nat.le_max_left ..)
  | @tail q r hq h ih =>
    obtain ⟨old, hold⟩ := Steps.history_suffix hq
    obtain ⟨after, before, he, hafter, hbefore⟩ := h.history
    have hsame : new ++ p.history = after ++ (before ++ old) ++ p.history := by
      rw [← hnew, he, ← hold, List.append_assoc, List.append_assoc]
    obtain rfl : new = after ++ (before ++ old) := List.append_cancel_right hsame
    have huold : Undisturbed p.desired old := fun e he => hu e (by simp [he])
    have hustep : Undisturbed p.desired (after ++ before) := by
      intro e he
      rcases List.mem_append.1 he with he | he
      · exact hu e (by simp [he])
      · exact hu e (by simp [he])
    have hpast := ih hold.symm huold
    have hfits : q.Fits callers := hp.steps hq
    have hmax : min p.desired q.config.maxCount ≤ p.ceiling := by
      rw [Steps.config hq]
      exact Nat.le_max_right ..
    have hlive : r.table.live ≤ p.ceiling :=
      h.live_le hfits (he.trans (List.append_assoc ..).symm) hustep
        (hpast _ List.mem_cons_self) hmax
    refine List.forall_mem_cons.2 ⟨hlive, List.forall_mem_map.2 fun e he => ?_⟩
    rcases List.mem_append.1 he with he | he
    · exact hafter e he ▸ hlive
    rcases List.mem_append.1 he with he | he
    · exact hbefore e he ▸ hpast _ List.mem_cons_self
    · exact hpast _ (List.mem_cons_of_mem _ (List.mem_map_of_mem he))

/-- The jobs never create too much. From any moment of a run on, whatever public operations follow
and however the cycles of the jobs are nested in calls of user code: as long as the target stays as
it is and no acquisition reserves capacity, what is live never rises above what was live at that
moment, or above the target within the maximum if that is more. -/
theorem Arises.never_over_creates (hp : p.Arises) :
    (∀ budget op, op.IsPublic → p.Steps (PoolM.run budget op p).2) ∧
    ∀ q new, p.Steps q → q.history = new ++ p.history →
      (∀ r ∈ new, r.seen.desired = p.desired ∧ r.entry.acquiring = 0) →
      ∀ s ∈ q.sight :: new.map (·.seen),
        s.table.live ≤ max p.table.live (min p.desired p.config.maxCount) :=
  ⟨fun budget _ hop => steps_run budget hop hp.isTame,
    fun _ _ hq hnew hu => hq.live_le_ceiling hp.fits hnew hu⟩

/-- Every factory call of a keeper cycle runs another keeper cycle and a care cycle, and every check
finds its resource unhealthy. -/
theorem never_over_creates_nested_cycles :
    let user : UserCode :=
      { UserCode.plain with
        factory := ⟨[], ⟨[.keeper, .care], .success⟩⟩
        checkStyle := some .direct
        checkDefault := ⟨[], ⟨[], .answer (.ok (.unhealthy "worn"))⟩⟩ }
    let p := new "pool" { desiredCount := 3 } user
    let q := (PoolM.run 4 .keeper p).2
    (∃ r ∈ q.history, r.depth = 3 ∧ r.seen.table.live = 3) ∧
      ∀ s ∈ q.sight :: q.history.map (·.seen), s.table.live ≤ 3 := by
  intro user p q
  have huser : user.IsPublic :=
    { UserCode.plain_runs _ with
      factory := fun op hop => by
        rcases List.mem_pair.1 hop with rfl | rfl <;> exact .of_installs_eq_nil rfl rfl
      checkDefault := fun _ hop => absurd hop List.not_mem_nil }
  have hp : p.Arises := (reachable_new "pool" _ huser (by decide)).arises
  obtain ⟨hruns, hlive⟩ := hp.never_over_creates
  have hkeeper : Op.IsPublic .keeper := .of_installs_eq_nil rfl rfl
  have hu : ∀ r ∈ q.history, r.seen.desired = p.desired ∧ r.entry.acquiring = 0 := by
    decide +kernel
  exact ⟨by decide +kernel, hlive q q.history (hruns 4 .keeper hkeeper) (List.append_nil _).symm hu⟩

end Pool

end LeasePool
