import LeasePool.Proofs.Ledger
import LeasePool.Proofs.CareCycle
import LeasePool.Proofs.OwnDeeds

/-!
# Batches of destroyed slots

A drain, a keeper cycle above its target and an eviction take slots out of the table in one batch.
They are reported as destroyed and let go of one after another, so a destructor that panics leaves
the slots behind it unreported, although they have left the table. The destructor of a slot panics
if it was made to, and nothing but the slot holds its resource. Where destructors run no operation,
a slot is as fragile at its turn as it was when the batch left the table.
-/

namespace LeasePool

namespace PoolM

variable {nested : Op → PoolM Reply} {p q : Pool}

/-- A panic is the answer, and what the operation still held is given back. -/
theorem answering_of_panicked {op : Op} {body : PoolM Reply} {panic : Panic} {caught : Pool}
    (h : body { p.note (.began op) with depth := p.depth + 1 } = (.panicked panic, q))
    (hq : ∀ r, q.user.destructor r = []) (hc : caught = q.unwindTo p.holdings.length) :
    answering nested op body p = (.done (.panicked panic.message),
      { caught with depth := caught.depth - 1 }.note (.ended op (.panicked panic.message))) := by
  subst hc
  simp only [answering, enter, leave, bind_apply, change_apply, pure_apply,
    attempt_of_panicked h hq]
  rfl

open Pool (anyRun)

variable {reason : DestroyReason} {batch : List (Slot Nat)}

/-- How the destruction of a slot is reported. -/
def destruction (reason : DestroyReason) (s : Slot Nat) : Entry :=
  .event (.resourceDestroyed s.id reason)

/-- What an action reports itself of a batch that it destroys: the slots up to the first one whose
destructor panics, and all of them if none does. -/
def ReportsUntilPanic {α : Type} (m : PoolM α) (reason : DestroyReason) (batch : List (Slot Nat))
    (p : Pool) : Prop :=
  Spec anyRun m p (fun _ q => p.Tells (batch.map (destruction reason)) q)
    fun panic q => ∃ before s after, batch = before ++ s :: after ∧
      panic = destructorPanic s.resource ∧ p.Tells ((before ++ [s]).map (destruction reason)) q

/-- A slot is reported before its destructor does anything, and what the destructor runs is not done
on behalf of the destruction. -/
theorem tells_destroyOne (budget : Nat) (reason : DestroyReason) (s : Slot Nat) (p : Pool) :
    Spec anyRun (destroyOne (run budget) reason s) p (fun _ q => p.Tells [destruction reason s] q)
      fun panic q => panic = destructorPanic s.resource ∧ p.Tells [destruction reason s] q := by
  have hnoted : p.Tells [destruction reason s]
      ({ p with tally := p.tally.bump .destroyed }.note (destruction reason s)) := .note p _ rfl
  have hstruck : Pool.Rests ({ p with tally := p.tally.bump .destroyed }.note
      (destruction reason s)) (p.bury reason s) := by
    refine .of_frame ?_
    rw [Pool.bury_eq]
    rfl
  have hburied := hnoted.trans hstruck
  refine .jump (destroyOne_apply ..) (fun _ => trivial) ?_
  refine Spec.bind ((rests_runInside budget _ _).mono (fun _ _ h => h) fun _ _ => False.elim)
    fun _ q hq => ?_
  split
  · exact .raise ⟨rfl, hburied.trans hq⟩
  · exact .pure (hburied.trans hq)

/-- A batch is reported slot by slot, and a panic leaves out those behind it. -/
theorem reportsUntilPanic_destroy (budget : Nat) (reason : DestroyReason)
    (batch : List (Slot Nat)) (p : Pool) :
    ReportsUntilPanic (destroy (run budget) reason batch) reason batch p := by
  unfold ReportsUntilPanic
  induction batch generalizing p with
  | nil => exact .pure (Pool.Rests.of_frame rfl)
  | cons s rest ih =>
    refine Spec.bind ((tells_destroyOne budget reason s p).mono (fun _ _ h => h) ?_) ?_
    · rintro panic q ⟨hpanic, hq⟩
      exact ⟨[], s, rest, rfl, hpanic, hq⟩
    · intro _ q hq
      refine (ih q).mono (fun _ r hr => hq.trans hr) ?_
      rintro panic r ⟨before, t, after, rfl, hpanic, hr⟩
      exact ⟨s :: before, t, after, rfl, hpanic, hq.trans hr⟩

section ReportsUntilPanic

variable {α β : Type} {m : PoolM α} {n : PoolM β}

/-- What has been done before and tells of nothing does not matter. -/
theorem ReportsUntilPanic.jump {m : PoolM β} (h : m p = n q) (hq : p.Rests q)
    (hn : ReportsUntilPanic n reason batch q) : ReportsUntilPanic m reason batch p := by
  refine Spec.jump h (fun _ => trivial) (Spec.mono hn (fun _ r hr => hq.trans hr) ?_)
  rintro panic r ⟨before, s, after, hbatch, hpanic, hr⟩
  exact ⟨before, s, after, hbatch, hpanic, hq.trans hr⟩

/-- Nor does the value in which the destruction ends. -/
theorem ReportsUntilPanic.bind_pure (hm : ReportsUntilPanic m reason batch p) (value : β) :
    ReportsUntilPanic (m >>= fun _ => pure value) reason batch p :=
  Spec.bind hm fun _ _ hq => .pure hq

end ReportsUntilPanic

end PoolM

namespace Pool

variable {p q : Pool} {reason : DestroyReason} {batch : List (Slot Nat)} {s : Slot Nat}

/-- Whether something else than its slot holds a resource. -/
def isShared (p : Pool) (resource : Nat) : Bool :=
  p.leases.any (·.resource == resource) || p.holdings.any (·.resource? == some resource) ||
    p.stuck.contains resource

/-- Whether a destructor panics when a slot of the table is destroyed. -/
def isFragile (p : Pool) (s : Slot Nat) : Bool :=
  p.brittle.contains s.resource && !p.isShared s.resource

/-- The slots of a batch that are reported as destroyed: those up to the first fragile one. -/
def reported (p : Pool) (batch : List (Slot Nat)) : List (Slot Nat) :=
  batch.take (batch.findIdx p.isFragile + 1)

/-- The panic in which the destruction of a batch ends, if it does. -/
def panic? (p : Pool) (batch : List (Slot Nat)) : Option Panic :=
  (batch.find? p.isFragile).map fun s => PoolM.destructorPanic s.resource

/-- A batch has left the table. What is reported and counted of it are the slots up to the first
fragile one. -/
structure Loses (p : Pool) (reason : DestroyReason) (batch : List (Slot Nat)) (q : Pool) :
    Prop where
  slots : p.table.slots.Perm (batch ++ q.table.slots)
  events : q.events = p.events ++ (p.reported batch).map fun s => .resourceDestroyed s.id reason
  destroyed : q.tally.destroyed = p.tally.destroyed + .ofNat (p.reported batch).length

/-- Nothing is reported after a slot whose destructor panics. -/
theorem reported_cons_of_fragile (hs : p.isFragile s = true) (rest : List (Slot Nat)) :
    p.reported (s :: rest) = [s] := by
  rw [reported, List.findIdx_cons, hs]
  rfl

/-- After another slot the report goes on. -/
theorem reported_cons_of_sound (hs : p.isFragile s = false) (rest : List (Slot Nat)) :
    p.reported (s :: rest) = s :: p.reported rest := by
  rw [reported, List.findIdx_cons, hs]
  rfl

/-- All of a batch is reported if no slot is fragile but the last one. -/
theorem reported_eq_self_iff (p : Pool) (batch : List (Slot Nat)) :
    p.reported batch = batch ↔ ∀ s ∈ batch.dropLast, p.isFragile s = false := by
  induction batch with
  | nil => exact iff_of_true rfl fun _ hs => absurd hs List.not_mem_nil
  | cons s rest ih =>
    cases hs : p.isFragile s with
    | true =>
      rw [reported_cons_of_fragile hs]
      cases rest with
      | nil => exact iff_of_true rfl fun _ hs => absurd hs List.not_mem_nil
      | cons s' rest =>
        refine iff_of_false nofun fun h => ?_
        have hsound := h s List.mem_cons_self
        rw [hs] at hsound
        cases hsound
    | false =>
      rw [reported_cons_of_sound hs, List.cons_inj_right, ih]
      cases rest with
      | nil =>
        exact iff_of_true (fun _ hs => absurd hs List.not_mem_nil)
          fun _ hs => absurd hs List.not_mem_nil
      | cons s' rest =>
        rw [List.dropLast_cons_cons, List.forall_mem_cons]
        exact (and_iff_right hs).symm

/-- The slots of a batch have left the table, and the running operation holds them. The table knew
each of their resources once. -/
structure Removed (p : Pool) (reason : DestroyReason) (batch : List (Slot Nat)) (q : Pool) :
    Prop where
  user : q.user = p.user
  holdings : q.holdings = batch.map (.removed reason) ++ p.holdings
  leases : q.leases = p.leases
  stuck : q.stuck = p.stuck
  brittle : q.brittle = p.brittle
  alone : ∀ s ∈ batch, ∀ s' ∈ q.table.slots, s'.resource ≠ s.resource
  distinct : batch.Pairwise fun s s' => s'.resource ≠ s.resource

namespace Removed

variable {rest : List (Slot Nat)}

/-- Slots that leave a table take along resources that no other slot has. -/
theorem of_prunes (hp : p.IsExclusive) (ht : p.table.Prunes q.table batch) (hu : q.user = p.user)
    (hh : q.holdings = batch.map (.removed reason) ++ p.holdings) (hl : q.leases = p.leases)
    (hs : q.stuck = p.stuck) (hb : q.brittle = p.brittle) : p.Removed reason batch q := by
  have hne : ∀ {s s'}, s ∈ p.table.slots → s' ∈ p.table.slots → s'.id ≠ s.id →
      s'.resource ≠ s.resource := fun hs hs' =>
    mt (hp.paired (.of_slot hs') (.of_slot hs)).2
  have hnodup : (batch ++ q.table.slots).Pairwise fun s s' => s.id ≠ s'.id := by
    have hids : p.table.ids.Perm ((batch ++ q.table.slots).map (·.id)) := ht.slots.map _
    exact List.pairwise_map.1 (hids.nodup_iff.1 hp.sound.nodup)
  obtain ⟨hbatch, -, hbetween⟩ := List.pairwise_append.1 hnodup
  have hmem : ∀ {s}, s ∈ batch ++ q.table.slots → s ∈ p.table.slots := ht.slots.mem_iff.2
  refine ⟨hu, hh, hl, hs, hb, fun s hs s' hs' => ?_, hbatch.imp_of_mem fun hs hs' hids => ?_⟩
  · exact hne (hmem (List.mem_append_left _ hs)) (hmem (List.mem_append_right _ hs'))
      (hbetween s hs s' hs').symm
  · exact hne (hmem (List.mem_append_left _ hs)) (hmem (List.mem_append_left _ hs')) hids.symm

/-- The first slot of a batch is held by nothing that did not hold it before. -/
theorem isHeld (h : p.Removed reason (s :: rest) q) :
    (q.strikeOff reason s).isHeld s.resource = p.isShared s.resource := by
  have hholdings : (q.strikeOff reason s).holdings =
      rest.map (.removed reason) ++ p.holdings := by
    change q.holdings.erase _ = _
    rw [h.holdings, List.map_cons, List.cons_append, List.erase_cons_head]
  have htable : (q.strikeOff reason s).table.slots.any (·.resource == s.resource) = false := by
    refine List.any_eq_false.2 fun s' hs' => ?_
    rw [beq_iff_eq]
    exact h.alone s List.mem_cons_self s' hs'
  have hrest :
      (rest.map (Holding.removed reason)).any (·.resource? == some s.resource) = false := by
    refine List.any_eq_false.2 fun held hheld => ?_
    obtain ⟨s', hs', rfl⟩ := List.mem_map.1 hheld
    rw [beq_iff_eq]
    exact mt Option.some.inj ((List.pairwise_cons.1 h.distinct).1 s' hs')
  have hleases : (q.strikeOff reason s).leases = p.leases := h.leases
  have hstuck : (q.strikeOff reason s).stuck = p.stuck := h.stuck
  rw [Pool.isHeld, htable, hholdings, List.any_append, hrest, hleases, hstuck, isShared]
  rfl

/-- The first slot of a batch is destroyed. If it is fragile, its destructor panics. -/
theorem destroyOne (h : p.Removed reason (s :: rest) q) (hp : ∀ r, p.user.destructor r = []) :
    PoolM.destroyOne nested reason s q =
      (if p.isFragile s then .panicked (PoolM.destructorPanic s.resource) else .done (),
        q.bury reason s) := by
  have hquiet : ∀ r, (q.strikeOff reason s).user.destructor r = [] := by
    intro r
    rw [← hp r, ← h.user]
    rfl
  have hbrittle : (q.strikeOff reason s).brittle = p.brittle := h.brittle
  rw [PoolM.destroyOne_apply, parting_eq hquiet, h.isHeld, hbrittle, Bool.and_comm, ← isFragile]
  cases p.isFragile s <;> rfl

/-- If the first slot is not fragile, the others of its batch are left. -/
theorem bury (h : p.Removed reason (s :: rest) q) (hs : p.isFragile s = false) :
    p.Removed reason rest (q.bury reason s) := by
  have hbrittle : (q.strikeOff reason s).brittle = p.brittle := h.brittle
  have hkept : (q.bury reason s).brittle = p.brittle := by
    unfold Pool.bury discard
    split
    · exact hbrittle
    · next hfree =>
      rw [h.isHeld, Bool.not_eq_true] at hfree
      rw [isFragile, hfree, Bool.not_false, Bool.and_true, List.contains_eq_mem,
        decide_eq_false_iff_not] at hs
      refine (List.erase_of_not_mem ?_).trans hbrittle
      rwa [hbrittle]
  have hholdings : (q.bury reason s).holdings = rest.map (.removed reason) ++ p.holdings := by
    rw [bury_eq]
    change q.holdings.erase _ = _
    rw [h.holdings, List.map_cons, List.cons_append, List.erase_cons_head]
  refine ⟨?_, hholdings, ?_, ?_, hkept, ?_, (List.pairwise_cons.1 h.distinct).2⟩
  all_goals rw [bury_eq]
  · exact h.user
  · exact h.leases
  · exact h.stuck
  · exact fun s' hs' => h.alone s' (List.mem_cons_of_mem _ hs')

end Removed

/-- What is reported and counted of a batch, while the table and user code stay as they are. -/
structure Reports (reason : DestroyReason) (reported : List (Slot Nat)) (q r : Pool) : Prop where
  events : r.events = q.events ++ reported.map fun s => .resourceDestroyed s.id reason
  tally : r.tally =
    { q.tally with destroyed := q.tally.destroyed + .ofNat reported.length }
  table : r.table = q.table
  user : r.user = q.user

/-- A destroyed slot is reported and counted, also if its destructor panics. -/
theorem reports_bury (reason : DestroyReason) (s : Slot Nat) (q : Pool) :
    Reports reason [s] q (q.bury reason s) := by
  rw [bury_eq]
  exact ⟨List.reverse_cons, rfl, rfl, rfl⟩

/-- Batches are reported one after another. -/
theorem Reports.trans {first rest : List (Slot Nat)} {r t : Pool} (h : Reports reason first q r)
    (h' : Reports reason rest r t) : Reports reason (first ++ rest) q t where
  events := by rw [h'.events, h.events, List.append_assoc, List.map_append]
  tally := by
    rw [h'.tally, h.tally, List.length_append, UInt64.ofNat_add, ← UInt64.add_assoc]
  table := h'.table.trans h.table
  user := h'.user.trans h.user

/-- The slots of a batch are reported and counted up to the first fragile one, whose destructor
panics. -/
theorem Removed.destroy (h : p.Removed reason batch q) (hp : ∀ r, p.user.destructor r = [])
    (nested : Op → PoolM Reply) :
    (PoolM.destroy nested reason batch q).1 = (match p.panic? batch with
      | some panic => .panicked panic
      | none => .done ()) ∧
    Reports reason (p.reported batch) q (PoolM.destroy nested reason batch q).2 := by
  induction batch generalizing q with
  | nil =>
    have hnone : q.tally = { q.tally with destroyed := q.tally.destroyed + 0 } := by
      rw [UInt64.add_zero]
    exact ⟨rfl, (List.append_nil _).symm, hnone, rfl, rfl⟩
  | cons s rest ih =>
    have hone : PoolM.destroyOne nested reason s q = _ := h.destroyOne hp
    have hreports := reports_bury reason s q
    unfold PoolM.destroy
    cases hs : p.isFragile s with
    | true =>
      have hpanics : p.panic? (s :: rest) = some (PoolM.destructorPanic s.resource) := by
        rw [panic?, List.find?_cons_of_pos hs]
        rfl
      rw [if_pos hs] at hone
      rw [PoolM.bind_of_panicked hone, hpanics, reported_cons_of_fragile hs]
      exact ⟨rfl, hreports⟩
    | false =>
      have hpanics : p.panic? (s :: rest) = p.panic? rest := by
        rw [panic?, List.find?_cons_of_neg (by simp [hs])]
        rfl
      rw [hs, if_neg Bool.false_ne_true] at hone
      obtain ⟨hend, hothers⟩ := ih (h.bury hs)
      rw [PoolM.bind_of_done hone, hpanics, reported_cons_of_sound hs]
      exact ⟨hend, hreports.trans hothers⟩

/-- A batch that has left the table is destroyed. -/
theorem Removed.loses (h : p.Removed reason batch q) (hp : ∀ r, p.user.destructor r = [])
    (ht : p.table.Prunes q.table batch) (he : q.events = p.events)
    (hd : q.tally.destroyed = p.tally.destroyed) :
    p.Loses reason batch (PoolM.destroy nested reason batch q).2 := by
  obtain ⟨-, hreports⟩ := h.destroy hp nested
  refine ⟨?_, by rw [hreports.events, he], by rw [hreports.tally, ← hd]⟩
  rw [hreports.table]
  exact ht.slots

/-- What destructors run is the same once a batch is destroyed. -/
theorem Removed.destructor_eq_nil (h : p.Removed reason batch q)
    (hp : ∀ r, p.user.destructor r = []) (r : Nat) :
    (PoolM.destroy nested reason batch q).2.user.destructor r = [] := by
  rw [(h.destroy hp nested).2.user, h.user, hp]

/-- Taking a batch out of the table is the first half of its destruction. -/
theorem removed_takeOut (hp : p.IsExclusive) (reason : DestroyReason)
    {f : Table Nat → List (Slot Nat) × Table Nat}
    (hf : p.table.Prunes (f p.table).2 (f p.table).1) :
    p.Removed reason (f p.table).1 (PoolM.takeOut reason f p).2 :=
  .of_prunes hp hf rfl rfl rfl rfl rfl

/-- Catching a panic touches neither the slots nor what is reported and counted. -/
theorem Loses.unwindTo (h : p.Loses reason batch q) (mark : Nat) :
    p.Loses reason batch (q.unwindTo mark) := by
  rw [unwindTo_eq]
  exact ⟨h.slots, h.events, h.destroyed⟩

/-- The idle slots above the target, which a keeper cycle takes out. -/
def surplus (p : Pool) : List (Slot Nat) := (p.table.removeIdleLru (p.table.live - p.desired)).1

/-- The idle slots that have expired at the next reading of the clock. -/
def expired (p : Pool) : List (Slot Nat) := (p.table.removeIdleWhere p.bench.expires).1

/-- The pool from which a cycle of the health-care job has just taken the expired slots. -/
def ousted (p : Pool) : Pool :=
  (PoolM.takeOutExpired p.bench.expires { p with clock := p.clock.read }).2

/-- The expired slots leave the table, and no others do. -/
theorem prunes_ousted (p : Pool) : p.table.Prunes p.ousted.table p.expired :=
  Table.prunes_removeIdleWhere p.bench.expires p.table

/-- Taking out what has expired is a sequence of steps. -/
theorem steps_ousted (p : Pool) : p.Steps p.ousted :=
  .tail (.single (.clock p.clock.read (Nat.le_add_right ..))) (.takeOutExpired p.bench.expires)

/-- An eviction takes out what has expired, and then destroys it. -/
theorem evict_eq_destroy (he : p.config.eviction.isEnabled = true) (nested : Op → PoolM Reply) :
    PoolM.evict nested p = (do
      PoolM.destroy nested .expired p.expired
      pure p.expired.length : PoolM Nat) p.ousted := by
  simp only [PoolM.evict, PoolM.bind_apply, PoolM.read_apply, he, if_true]
  rfl

/-- A drain destroys all slots, and its panic is caught at the end of the operation. -/
theorem Arises.drain_loses (h : p.Arises) (hp : ∀ r, p.user.destructor r = []) (budget : Nat) :
    (PoolM.run (budget + 1) .drain p).1 = .done (match p.panic? p.table.slots with
      | some panic => .panicked panic.message
      | none => .nothing) ∧
    p.Loses .shutdown p.table.slots (PoolM.run (budget + 1) .drain p).2 := by
  let start := { p.note (.began .drain) with depth := p.depth + 1 }
  let taken := (PoolM.takeOut .shutdown (·.drain) start).2
  let left := (PoolM.destroy (PoolM.run budget) .shutdown p.table.slots taken).2
  have hstart : start.Arises :=
    h.steps (.tail (.single (.remark (.began .drain) trivial)) (.depth _))
  have hremoved : start.Removed .shutdown p.table.slots taken :=
    removed_takeOut hstart.isExclusive .shutdown (Table.prunes_drain p.table)
  have hloses : start.Loses .shutdown p.table.slots left :=
    hremoved.loses hp (Table.prunes_drain p.table) rfl rfl
  have hend := (hremoved.destroy hp (PoolM.run budget)).1
  have hsame : start.panic? p.table.slots = p.panic? p.table.slots := rfl
  rw [hsame] at hend
  cases hpanic : p.panic? p.table.slots with
  | none =>
    rw [hpanic] at hend
    have hdrain : PoolM.drain (PoolM.run budget) start = (.done (), left) := Prod.ext hend rfl
    have hbody : PoolM.perform (PoolM.run budget) budget .drain start = (.done .nothing, left) :=
      PoolM.bind_of_done hdrain _
    rw [PoolM.run, PoolM.answering_of_returned hbody]
    exact ⟨rfl, hloses.slots, hloses.events, hloses.destroyed⟩
  | some panic =>
    rw [hpanic] at hend
    have hdrain : PoolM.drain (PoolM.run budget) start = (.panicked panic, left) :=
      Prod.ext hend rfl
    have hbody : PoolM.perform (PoolM.run budget) budget .drain start = (.panicked panic, left) :=
      PoolM.bind_of_panicked hdrain _
    have hcaught := hloses.unwindTo p.holdings.length
    rw [PoolM.run, PoolM.answering_of_panicked hbody (hremoved.destructor_eq_nil hp) rfl]
    exact ⟨rfl, hcaught.slots, hcaught.events, hcaught.destroyed⟩

/-- The pool from which a keeper cycle has just taken the slots above the target. -/
def thinned (p : Pool) : Pool :=
  (PoolM.takeOut .surplus (·.removeIdleLru (p.table.live - p.desired)) p).2

/-- A cycle that finds the target or more takes out what is above it. -/
theorem resize_of_le (hd : p.desired ≤ p.table.live) :
    PoolM.resize p = (.done (0, p.surplus), p.thinned) := by
  simp only [PoolM.resize, PoolM.bind_apply, PoolM.read_apply, if_neg (Nat.not_lt.2 hd)]
  rfl

/-- A keeper cycle destroys what is above the target once the hook has been asked. A cycle that
shrinks creates nothing. -/
theorem IsExclusive.keeper_loses {nested : Op → PoolM Reply} {m : Pool} (hm : m.IsExclusive)
    (hp : ∀ r, m.user.destructor r = []) (hgo : p.keeperStops = false)
    (hhook : PoolM.callHook nested .maintenance p = (.done (), m))
    (hd : m.desired ≤ m.table.live) :
    (PoolM.keeperCycle nested p).1 = .done (match m.panic? m.surplus with
      | some panic => .error (.panicked panic.message)
      | none => .ok { destroyed := m.surplus.length }) ∧
    m.Loses .surplus m.surplus (PoolM.keeperCycle nested p).2 := by
  let left := (PoolM.destroy nested .surplus m.surplus m.thinned).2
  have hprunes : m.table.Prunes m.thinned.table m.surplus := Table.prunes_removeIdleLru _ m.table
  have hremoved : m.Removed .surplus m.surplus m.thinned := removed_takeOut hm .surplus hprunes
  have hloses : m.Loses .surplus m.surplus left := hremoved.loses hp hprunes rfl rfl
  have hend := (hremoved.destroy hp nested).1
  have hcycle : PoolM.runKeeper nested p = (do
      PoolM.destroy nested .surplus m.surplus
      let report : KeeperReport := { destroyed := m.surplus.length }
      PoolM.traceKeeper report
      pure (.ok report) : PoolM (Except KeeperFailure KeeperReport)) m.thinned := by
    simp only [PoolM.runKeeper, PoolM.bind_apply, PoolM.read_apply, hgo, Bool.false_eq_true,
      if_false, hhook, resize_of_le hd]
    rfl
  cases hpanic : m.panic? m.surplus with
  | none =>
    rw [hpanic] at hend
    have hdestroy : PoolM.destroy nested .surplus m.surplus m.thinned = (.done (), left) :=
      Prod.ext hend rfl
    have htrace : ∃ q : Pool, PoolM.traceKeeper { destroyed := m.surplus.length } left =
        (.done (), q) ∧ m.Loses .surplus m.surplus q := by
      unfold PoolM.traceKeeper
      split
      · exact ⟨_, rfl, hloses.slots, hloses.events, hloses.destroyed⟩
      · exact ⟨_, rfl, hloses⟩
    obtain ⟨q, htrace, hq⟩ := htrace
    rw [PoolM.bind_of_done hdestroy, PoolM.bind_of_done htrace] at hcycle
    have hend : PoolM.keeperCycle nested p =
        (.done (.ok { destroyed := m.surplus.length }), q) :=
      PoolM.bind_of_done (PoolM.attempt_of_done hcycle) _
    rw [hend]
    exact ⟨rfl, hq⟩
  | some panic =>
    rw [hpanic] at hend
    have hdestroy : PoolM.destroy nested .surplus m.surplus m.thinned = (.panicked panic, left) :=
      Prod.ext hend rfl
    rw [PoolM.bind_of_panicked hdestroy] at hcycle
    have hend : PoolM.keeperCycle nested p =
        (.done (.error (.panicked panic.message)), left.unwindTo p.holdings.length) :=
      PoolM.bind_of_done
        (PoolM.attempt_of_panicked hcycle (hremoved.destructor_eq_nil hp)) _
    rw [hend]
    exact ⟨rfl, hloses.unwindTo _⟩

/-- An eviction counts all the slots that it takes out, and destroys them. -/
theorem IsExclusive.evict_loses (h : p.IsExclusive) (hp : ∀ r, p.user.destructor r = [])
    (he : p.config.eviction.isEnabled = true) (nested : Op → PoolM Reply) :
    (PoolM.evict nested p).1 = (match p.panic? p.expired with
      | some panic => .panicked panic
      | none => .done p.expired.length) ∧
    p.Loses .expired p.expired (PoolM.evict nested p).2 ∧
    (PoolM.evict nested p).2.tally.evictions = p.tally.evictions + .ofNat p.expired.length := by
  let left := (PoolM.destroy nested .expired p.expired p.ousted).2
  have hremoved : p.Removed .expired p.expired p.ousted :=
    .of_prunes h p.prunes_ousted rfl rfl rfl rfl rfl
  have hloses : p.Loses .expired p.expired left := hremoved.loses hp p.prunes_ousted rfl rfl
  have hend := (hremoved.destroy hp nested).1
  have hevict := evict_eq_destroy he nested
  have hcount : left.tally.evictions = p.tally.evictions + .ofNat p.expired.length := by
    rw [show left.tally = _ from (hremoved.destroy hp nested).2.tally]
    rfl
  cases hpanic : p.panic? p.expired with
  | none =>
    rw [hpanic] at hend
    have hdestroy : PoolM.destroy nested .expired p.expired p.ousted = (.done (), left) :=
      Prod.ext hend rfl
    rw [hevict, PoolM.bind_of_done hdestroy]
    exact ⟨rfl, hloses, hcount⟩
  | some panic =>
    rw [hpanic] at hend
    have hdestroy : PoolM.destroy nested .expired p.expired p.ousted = (.panicked panic, left) :=
      Prod.ext hend rfl
    rw [hevict, PoolM.bind_of_panicked hdestroy]
    exact ⟨rfl, hloses, hcount⟩

/-- When a destructor panics in an eviction, the cycle ends with it. -/
theorem care_of_evict_panicked {nested : Op → PoolM Reply} {panic : Panic}
    (hgo : p.careStops = false) (he : (PoolM.evict nested p).1 = .panicked panic)
    (hq : ∀ r, (PoolM.evict nested p).2.user.destructor r = []) :
    PoolM.careCycle nested p = (.done (.error (.panicked panic.message)),
      (PoolM.evict nested p).2.unwindTo p.holdings.length) := by
  have hevict : PoolM.evict nested p = (.panicked panic, (PoolM.evict nested p).2) :=
    Prod.ext he rfl
  have hrun : PoolM.runCare nested p = (.panicked panic, (PoolM.evict nested p).2) := by
    unfold PoolM.runCare
    simp only [PoolM.bind_apply, PoolM.read_apply, hgo, Bool.false_eq_true, if_false]
    rw [hevict]
  exact PoolM.bind_of_done (PoolM.attempt_of_panicked hrun hq) _

/-- A drain reports its batch up to the first panic, whatever operations the destructors run. -/
theorem reportsUntilPanic_drain (budget : Nat) (p : Pool) :
    PoolM.ReportsUntilPanic (PoolM.drain (PoolM.run budget)) .shutdown p.table.slots p := by
  have hdrain : PoolM.drain (PoolM.run budget) p =
      PoolM.destroy (PoolM.run budget) .shutdown p.table.slots
        (PoolM.takeOut .shutdown (·.drain) p).2 := rfl
  exact .jump hdrain (.of_frame rfl) (PoolM.reportsUntilPanic_destroy budget _ _ _)

/-- An eviction reports its batch up to the first panic. -/
theorem reportsUntilPanic_evict (budget : Nat) (he : p.config.eviction.isEnabled = true) :
    PoolM.ReportsUntilPanic (PoolM.evict (PoolM.run budget)) .expired p.expired p :=
  .jump (evict_eq_destroy he _) (.of_frame rfl)
    ((PoolM.reportsUntilPanic_destroy budget _ _ _).bind_pure p.expired.length)

/-- A keeper cycle above its target reports its batch up to the first panic. -/
theorem reportsUntilPanic_shrink (budget : Nat) (hd : p.desired ≤ p.table.live) :
    PoolM.ReportsUntilPanic (PoolM.resize >>= fun plan =>
      PoolM.destroy (PoolM.run budget) .surplus plan.2) .surplus p.surplus p := by
  have hshrink : (PoolM.resize >>= fun plan =>
      PoolM.destroy (PoolM.run budget) .surplus plan.2) p =
        PoolM.destroy (PoolM.run budget) .surplus p.surplus p.thinned := by
    rw [PoolM.bind_of_done (resize_of_le hd)]
  exact .jump hshrink (.of_frame rfl) (PoolM.reportsUntilPanic_destroy budget _ _ _)

/-- Whatever batch of slots leaves the table by a drain, by a keeper cycle above its target or by an
eviction, each slot of it is reported as destroyed with the reason of the batch, up to the first one
whose destructor panics. Whatever operations the destructors run, these are the reports of the
batch.

Where destructors run no operation, that is all that is reported and counted. So all of a batch is
reported exactly if no slot is fragile but the last one. The panic is caught, and is the answer to
the drain and the failure of the cycle. An eviction counts all the slots that it takes out, and the
report of a keeper cycle does so too. -/
theorem Arises.batches_reported_until_panic (h : p.Arises) (budget : Nat) :
    (PoolM.ReportsUntilPanic (PoolM.drain (PoolM.run budget)) .shutdown p.table.slots p ∧
      (∀ m : Pool, m.desired ≤ m.table.live → PoolM.ReportsUntilPanic (PoolM.resize >>= fun plan =>
        PoolM.destroy (PoolM.run budget) .surplus plan.2) .surplus m.surplus m) ∧
      (p.config.eviction.isEnabled = true →
        PoolM.ReportsUntilPanic (PoolM.evict (PoolM.run budget)) .expired p.expired p)) ∧
    (∀ batch, p.reported batch = batch ↔ ∀ s ∈ batch.dropLast, p.isFragile s = false) ∧
    ((∀ r, p.user.destructor r = []) →
      ((PoolM.run (budget + 1) .drain p).1 = .done (match p.panic? p.table.slots with
          | some panic => .panicked panic.message
          | none => .nothing) ∧
        p.Loses .shutdown p.table.slots (PoolM.run (budget + 1) .drain p).2) ∧
      (∀ m, p.keeperStops = false →
        PoolM.callHook (PoolM.run budget) .maintenance p = (.done (), m) →
        m.desired ≤ m.table.live →
        (PoolM.keeperCycle (PoolM.run budget) p).1 = .done (match m.panic? m.surplus with
          | some panic => .error (.panicked panic.message)
          | none => .ok { destroyed := m.surplus.length }) ∧
        m.Loses .surplus m.surplus (PoolM.keeperCycle (PoolM.run budget) p).2) ∧
      (p.careStops = false → p.config.eviction.isEnabled = true →
        p.Loses .expired p.expired (PoolM.evict (PoolM.run budget) p).2 ∧
        (PoolM.evict (PoolM.run budget) p).2.tally.evictions =
          p.tally.evictions + .ofNat p.expired.length ∧
        match p.panic? p.expired with
        | some panic =>
          PoolM.careCycle (PoolM.run budget) p = (.done (.error (.panicked panic.message)),
            (PoolM.evict (PoolM.run budget) p).2.unwindTo p.holdings.length) ∧
          p.Loses .expired p.expired (PoolM.careCycle (PoolM.run budget) p).2
        | none => (PoolM.evict (PoolM.run budget) p).1 = .done p.expired.length)) := by
  refine ⟨⟨reportsUntilPanic_drain budget p, fun _ hd => reportsUntilPanic_shrink budget hd,
    fun he => reportsUntilPanic_evict budget he⟩, p.reported_eq_self_iff, fun hp => ?_⟩
  refine ⟨h.drain_loses hp budget, fun m hgo hhook hd => ?_, fun hgo he => ?_⟩
  · have hsteps : p.Steps m := by
      have hcall := ((PoolM.nests_run (d := publicRun) budget).callHook .maintenance p h.isTame).1
      rwa [hhook] at hcall
    have hm : ∀ r, m.user.destructor r = [] := hsteps.destructor ▸ hp
    exact (h.steps hsteps).isExclusive.keeper_loses hm hgo hhook hd
  · obtain ⟨hend, hloses, hcount⟩ := h.isExclusive.evict_loses hp he (PoolM.run budget)
    refine ⟨hloses, hcount, ?_⟩
    cases hpanic : p.panic? p.expired with
    | none =>
      rw [hpanic] at hend
      exact hend
    | some panic =>
      rw [hpanic] at hend
      have hleft : (PoolM.evict (PoolM.run budget) p).2.user.destructor = p.user.destructor :=
        ((PoolM.nests_run (d := publicRun) budget).evict p h.isTame).1.destructor
      have hcycle : PoolM.careCycle (PoolM.run budget) p = _ :=
        care_of_evict_panicked hgo hend (hleft ▸ hp)
      refine ⟨hcycle, ?_⟩
      rw [hcycle]
      exact hloses.unwindTo _

/-- The destructor of the first of two resources panics in a drain. Both slots have left the table,
and only the first one is reported and counted. -/
theorem batches_reported_until_panic_drain :
    let filled := (PoolM.run 3 .keeper (new "pool" { desiredCount := 2, maxCount := 4 } .plain)).2
    let p := (PoolM.run 3 (.breakDestructor 0) filled).2
    let q := (PoolM.run 3 .drain p).2
    p.Arises ∧ p.table.slots.length = 2 ∧ q.table.slots = [] ∧
      q.events = p.events ++ [.resourceDestroyed 1 .shutdown] ∧ q.tally.destroyed = 1 := by
  intro filled p q
  have hstart : (new "pool" { desiredCount := 2, maxCount := 4 } .plain).Reachable :=
    reachable_new "pool" _ (UserCode.plain_runs _) (by decide)
  have hfilled : filled.Reachable := hstart.next (.of_installs_eq_nil rfl rfl) (by decide +kernel)
  have hbreak : Op.IsPublic (.breakDestructor 0) := .of_installs_eq_nil rfl rfl
  have hp : p.Arises := (hfilled.next hbreak (by decide +kernel)).arises
  obtain ⟨-, -, hquiet⟩ := hp.batches_reported_until_panic 2
  obtain ⟨⟨-, hloses⟩, -, -⟩ := hquiet fun _ => rfl
  have hreported :
      (p.reported p.table.slots).map (fun s => Event.resourceDestroyed s.id .shutdown) =
        [.resourceDestroyed 1 .shutdown] := by
    decide +kernel
  refine ⟨hp, by decide +kernel, by decide +kernel, ?_, by decide +kernel⟩
  rw [hloses.events, hreported]

end Pool

end LeasePool
