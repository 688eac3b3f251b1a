import LeasePool.Proofs.Exclusive

/-!
# Slots in use and the background jobs

A cycle of a job runs operations inside of calls of user code. In between it takes steps of its own,
which take out and change only slots that are idle, or that the cycle has parked itself. So they
leave all slots in use as they are.
-/

namespace LeasePool

namespace Pool

variable {p q : Pool} {nested : Op → PoolM Reply}

/-- All slots in use are still there, and nothing about them has changed. -/
def Spares (p q : Pool) : Prop := ∀ s ∈ p.table.slots, s.state = .inUse → s ∈ q.table.slots

/-- A change of slots spares those in use if it leaves each of them as it is. -/
theorem spares_modify {id : Nat} {change : Slot Nat → Slot Nat}
    (ht : q.table = p.table.modify id change)
    (hc : ∀ s ∈ p.table.slots, s.id = id → s.state = .inUse → change s = s) : p.Spares q := by
  intro s hs hstate
  rw [ht]
  refine Table.mem_modify.2 ⟨s, hs, ?_⟩
  split
  · next hid => exact (hc s hs hid hstate).symm
  · rfl

/-- The steps of a cycle spare the slots in use. -/
theorem JobStep.spares (hp : p.IsExclusive) (h : p.JobStep q) : p.Spares q := by
  cases h with
  | aside _ hslots => exact fun s hs _ => hslots ▸ hs
  | commit => exact fun s hs _ => List.mem_append_left _ hs
  | takeOutLru n =>
    exact fun s hs hstate => hp.sound.mem_removeIdleLru hs (by simp [hstate]) n
  | takeOutExpired f =>
    exact fun s hs hstate => Table.mem_removeIdleWhere hs (by simp [hstate]) f
  | park id s t h =>
    obtain ⟨s', hs', rfl, hidle, -, rfl⟩ := Table.claimForCheck_eq_some h
    refine spares_modify rfl fun s hs hid hstate => ?_
    rw [hp.sound.eq_of_id hs hs' hid, hidle] at hstate
    cases hstate
  | reinstate => exact spares_modify rfl fun s _ _ hstate => if_neg (by simp [hstate])
  | unpark => exact spares_modify rfl fun s _ _ hstate => if_neg (by simp [hstate])
  | takeOutBroken id resource reason h =>
    intro s hs hstate
    refine (Table.slots_invalidate hp.sound.nodup id).mem_iff.2 (List.mem_filter.2 ⟨hs, ?_⟩)
    -- The slot that was parked for the check is still parked, if it is in the table.
    have howner : ⟨id, resource, true⟩ ∈ p.owners := mem_owners_of_holding h rfl
    refine bne_iff_ne.2 fun hid => ?_
    rw [(hp.of_owner howner hs hid).1] at hstate
    cases hstate

/-- What happens in a cycle: a step of its own, which spares the slots in use, or all that a call of
user code runs, from the moment at which the call was made. -/
inductive CycleMove (nested : Op → PoolM Reply) (p : Pool) : Pool → Prop
  | own {q : Pool} (h : p.JobStep q) (hs : p.Spares q) : CycleMove nested p q
  | inside (ops : List Op) (h : p.Calling ops) (hops : ∀ op ∈ ops, op.IsPublic) :
      CycleMove nested p (PoolM.runInside nested ops p).2

/-- Cycles in a run: whatever happens is a move. -/
def cycleRun (nested : Op → PoolM Reply) : Discipline where
  valid := Arises
  moves p q := p.Steps q ∧ Relation.ReflTransGen (CycleMove nested) p q
  refl _ := ⟨.refl, .refl⟩
  trans h h' := ⟨h.1.trans h'.1, h.2.trans h'.2⟩
  keep hp h := hp.steps h.1

instance (nested : Op → PoolM Reply) : Hosts (cycleRun nested) :=
  .of_jobStep (fun hp => hp.isTame) (fun h => h.1.history_suffix) (fun h => h.1.destroyed_subset)
    fun hp h => ⟨.single h.step, .single (.own h (h.spares hp.isExclusive))⟩

end Pool

namespace PoolM

open Pool (publicRun cycleRun)

variable {p : Pool} {nested : Op → PoolM Reply}

/-- What a call of user code runs is one move. -/
theorem Nests.cycleRun (hn : Nests publicRun nested) : Nests (cycleRun nested) nested := by
  intro p ops hcalling hops hp
  obtain ⟨hsteps, hends⟩ := hn p ops hcalling hops hp.isTame
  exact ⟨⟨hsteps, .single (.inside ops hcalling hops)⟩, hends⟩

/-- A cycle of the count keeper consists of moves. -/
theorem Nests.moves_keeperCycle (hn : Nests publicRun nested) (hp : p.Arises) :
    Relation.ReflTransGen (Pool.CycleMove nested) p (PoolM.keeperCycle nested p).2 :=
  (hn.cycleRun.keeperCycle p hp).1.2

/-- A cycle of the health-care job consists of moves. -/
theorem Nests.moves_careCycle (hn : Nests publicRun nested) (hp : p.Arises) :
    Relation.ReflTransGen (Pool.CycleMove nested) p (PoolM.careCycle nested p).2 :=
  (hn.cycleRun.careCycle p hp).1.2

end PoolM

end LeasePool
