import LeasePool.Pool.Report
import LeasePool.Proofs.Unwinding

/-!
# What an operation does

The deeds of an operation are the calls of user code that it makes and the events that it reports.
Quiet user code runs no operations, so what an action of the pool does is determined by what it
finds: its value, its deeds and the state that it leaves. Such an action is followed forward from a
pool, and it must end. It may panic only because a hook or a destructor has.
-/

namespace LeasePool

/-- Whether an entry tells of a call of user code, of its verdict, of an event or of a hand-out. -/
def Entry.isDeed : Entry → Bool
  | .event _ | .factory _ | .check .. | .verdict .. | .hook _ | .handedOut .. => true
  | .began _ | .ended .. | .trace _ | .reserved .. | .confirmed _ | .hookPanicked _ => false
  | .noted .. | .applied _ | .freeing .. | .returned .. => false

/-- Whether an entry tells that a hook callback has panicked. -/
def Entry.isHookPanic : Entry → Bool
  | .hookPanicked _ => true
  | _ => false

/-- The state that an operation on a pool works with: all but what only keeps resources alive, and
what only is reported. -/
structure Bench where
  config : Config
  delegates : Bool
  table : Table Nat
  user : UserCode
  desired : Nat
  closed : Bool
  keeperSignal : Signal
  careSignal : Signal
  clock : Clock
  made : Nat
  leases : List Lease
  nextLease : Nat
  acquired : UInt64
  exhausted : UInt64

namespace Bench

/-- Whether the count keeper must not go on. -/
def keeperStops (b : Bench) : Bool := b.keeperSignal.isStopped || b.closed

/-- Whether the health-care job must not go on. -/
def careStops (b : Bench) : Bool := b.careSignal.isStopped || b.closed

/-- The bench with another table on it. -/
def withTable (table : Table Nat) (b : Bench) : Bench := { b with table }

/-- The state after a callback of the hook, which may have moved the target. -/
def steered (desired : Nat) (hook : Hook) (b : Bench) : Bench :=
  { b with desired, user := { b.user with hook } }

end Bench

/-- No slot is idle, and capacity is reserved for a resource within a maximum. -/
def Table.Lacks (t : Table Nat) (max : Nat) : Prop :=
  t.count .idle = 0 ∧ 0 < t.creating ∧ t.live ≤ max

namespace Pool

variable {p q r : Pool}

/-- The state that operations on a pool work with. -/
def bench (p : Pool) : Bench where
  config := p.config
  delegates := p.delegates
  table := p.table
  user := p.user
  desired := p.desired
  closed := p.closed
  keeperSignal := p.keeperSignal
  careSignal := p.careSignal
  clock := p.clock
  made := p.made
  leases := p.leases
  nextLease := p.nextLease
  acquired := p.tally.acquired
  exhausted := p.tally.exhausted

/-- What has been done since an earlier state of a pool, oldest first. -/
def deedsSince (p earlier : Pool) : List Entry :=
  ((p.recordsSince earlier).map (·.entry)).filter (·.isDeed)

/-- A hook callback has panicked since an earlier state. -/
def HookPanics (earlier p : Pool) : Prop := ∃ r ∈ p.recordsSince earlier, r.entry.isHookPanic = true

instance (earlier p : Pool) : Decidable (earlier.HookPanics p) :=
  inferInstanceAs (Decidable (∃ r ∈ _, _))

/-- A hook callback has panicked since an earlier state, or a resource was destroyed whose
destructor panics. -/
def Panics (earlier p : Pool) : Prop :=
  (∃ r ∈ p.recordsSince earlier, r.entry.isHookPanic = true) ∨
    ∃ resource ∈ p.destroyedSince earlier, resource ∈ earlier.brittle

instance (earlier p : Pool) : Decidable (earlier.Panics p) :=
  inferInstanceAs (Decidable (_ ∨ _))

theorem deedsSince_self (p : Pool) : p.deedsSince p = [] := by
  simp [deedsSince, recordsSince]

/-- A new entry is the latest record. -/
theorem recordsSince_note (h : p.history <:+ q.history) (e : Entry) :
    (q.note e).recordsSince p = q.recordsSince p ++
      [⟨q.clock.now, q.depth, q.traced, q.sight, e⟩] := by
  obtain ⟨new, hnew⟩ := h
  have hnote : (q.note e).history =
      (⟨q.clock.now, q.depth, q.traced, q.sight, e⟩ :: new) ++ p.history := congrArg _ hnew.symm
  rw [recordsSince_eq hnew.symm, recordsSince_eq hnote, List.reverse_cons]

/-- A new entry is the latest deed if it is one. -/
theorem deedsSince_note (h : p.history <:+ q.history) (e : Entry) :
    (q.note e).deedsSince p = q.deedsSince p ++ if e.isDeed then [e] else [] := by
  rw [deedsSince, recordsSince_note h, List.map_append, List.filter_append, List.map_singleton,
    List.filter_cons, List.filter_nil]
  rfl

/-- The deeds since an earlier state are in the history. -/
theorem deedsSince_of_eq (hh : q.history = p.history) : q.deedsSince r = p.deedsSince r := by
  rw [deedsSince, recordsSince, hh]
  rfl

/-- What was destroyed since an earlier state came on top of what it had. -/
theorem mem_destroyedSince {dead : List Nat} {resource : Nat}
    (h : q.destroyed = dead ++ p.destroyed) :
    resource ∈ q.destroyedSince p ↔ resource ∈ dead := by
  rw [destroyedSince, List.mem_mergeSort, h, List.length_append, Nat.add_sub_cancel, List.take_left]

/-- Discarding a resource forgets none that was destroyed. -/
theorem destroyed_suffix_discard (p : Pool) (resource : Nat) :
    p.destroyed <:+ (p.discard resource).destroyed := by
  unfold discard settle
  split
  · exact List.suffix_refl _
  · exact List.suffix_cons _ _

/-- Giving back a holding forgets no resource that was destroyed. -/
theorem destroyed_suffix_giveBackLatest (p : Pool) :
    p.destroyed <:+ p.giveBackLatest.destroyed := by
  unfold giveBackLatest
  split
  · exact List.suffix_refl _
  · dsimp only
    split
    · exact List.suffix_refl _
    · unfold settle
      split
      · exact List.suffix_refl _
      · exact List.suffix_cons _ _
    · exact List.suffix_refl _

private theorem destroyed_suffix_iterate_giveBackLatest (n : Nat) (p : Pool) :
    p.destroyed <:+ (giveBackLatest^[n] p).destroyed := by
  induction n generalizing p with
  | zero => exact List.suffix_refl _
  | succ n ih => exact (destroyed_suffix_giveBackLatest p).trans (ih _)

/-- Unwinding brings no resource back. -/
theorem destroyed_suffix_unwindTo (p : Pool) (mark : Nat) :
    p.destroyed <:+ (p.unwindTo mark).destroyed :=
  destroyed_suffix_iterate_giveBackLatest _ p

/-- What has panicked stays so while a pool goes on. -/
theorem Panics.mono (h : p.Panics q) (hh : q.history <:+ r.history)
    (hd : q.destroyed <:+ r.destroyed) : p.Panics r := by
  have hmem {α : Type} {x : α} {xs ys : List α} {n : Nat} (hs : xs <:+ ys)
      (hx : x ∈ xs.take (xs.length - n)) : x ∈ ys.take (ys.length - n) := by
    obtain ⟨zs, rfl⟩ := hs
    have hpos : 0 < xs.length - n := by
      refine Nat.pos_of_ne_zero fun hzero => ?_
      rw [hzero] at hx
      exact absurd hx List.not_mem_nil
    have hlen : (zs ++ xs).length - n = zs.length + (xs.length - n) := by
      rw [List.length_append]
      omega
    rw [hlen, List.take_length_add_append]
    exact List.mem_append_right _ hx
  refine h.imp ?_ ?_
  · rintro ⟨record, hrecord, he⟩
    rw [recordsSince, List.mem_reverse] at hrecord
    exact ⟨record, List.mem_reverse.2 (hmem hh hrecord), he⟩
  · rintro ⟨resource, hresource, hb⟩
    rw [destroyedSince, List.mem_mergeSort] at hresource
    exact ⟨resource, List.mem_mergeSort.2 (hmem hd hresource), hb⟩

/-- Unwinding leaves the marks of a panic. -/
theorem Panics.unwindTo (h : p.Panics q) (mark : Nat) : p.Panics (q.unwindTo mark) := by
  have hhistory : (q.unwindTo mark).history = q.history := by rw [unwindTo_eq]
  exact h.mono (hhistory ▸ List.suffix_refl _) (destroyed_suffix_unwindTo q mark)

/-- What has panicked since a state has panicked since any earlier one. -/
theorem HookPanics.since (h : q.HookPanics r) (hp : p.history <:+ q.history) : p.HookPanics r := by
  obtain ⟨record, hrecord, hpanic⟩ := h
  refine ⟨record, ?_, hpanic⟩
  rw [recordsSince, List.mem_reverse] at hrecord ⊢
  exact List.take_subset_take_left _ (Nat.sub_le_sub_left hp.length_le _) hrecord

/-- The note of a panicked callback tells of it. -/
theorem hookPanics_note (h : p.history <:+ q.history) (call : HookCall) :
    p.HookPanics (q.note (.hookPanicked call)) := by
  refine ⟨⟨q.clock.now, q.depth, q.traced, q.sight, .hookPanicked call⟩, ?_, rfl⟩
  rw [recordsSince_note h]
  exact List.mem_append_right _ (List.mem_singleton_self _)

/-- A hook callback that panics is one of the panics of a run. -/
theorem panics_of_hook (h : p.history <:+ q.history) (call : HookCall) :
    p.Panics (q.note (.hookPanicked call)) :=
  .inl (hookPanics_note h call)

/-- So is a destructor that panics. -/
theorem panics_of_destroyed {resource : Nat} (hb : resource ∈ p.brittle)
    (hq : q.destroyed = resource :: r.destroyed)
    (hr : p.destroyed <:+ r.destroyed) : p.Panics q := by
  obtain ⟨dead, hdead⟩ := hr
  have hall : q.destroyed = (resource :: dead) ++ p.destroyed := by rw [hq, ← hdead]; rfl
  exact .inr ⟨resource, (mem_destroyedSince hall).2 List.mem_cons_self, hb⟩

/-- What has happened from a first pool on: the deeds, and the state that operations now work with.
User code is quiet, so it stays as the deeds leave it. -/
structure Does (first : Pool) (deeds : List Entry) (b : Bench) (p : Pool) : Prop where
  bench : p.bench = b
  history : first.history <:+ p.history
  deeds : p.deedsSince first = deeds
  destroyed : first.destroyed <:+ p.destroyed
  brittle : p.brittle ⊆ first.brittle
  quiet : b.user.IsQuiet
  /-- The factory was called for an acquisition only when it had to be. -/
  needed : ∀ r ∈ p.recordsSince first, r.entry = .factory .acquire →
    r.seen.table.Lacks first.config.maxCount

/-- A hook or a destructor has panicked since a first pool, and user code is still quiet. -/
structure Fails (first p : Pool) : Prop where
  panics : first.Panics p
  quiet : p.user.IsQuiet

end Pool

namespace Pool.Does

variable {first p q : Pool} {deeds : List Entry} {b c : Bench}

/-- Nothing has happened yet. -/
theorem start (hp : p.user.IsQuiet) : p.Does [] p.bench p where
  bench := rfl
  history := List.suffix_refl _
  deeds := deedsSince_self p
  destroyed := List.suffix_refl _
  brittle := List.Subset.refl _
  quiet := hp
  needed r hr := by
    rw [recordsSince, Nat.sub_self] at hr
    exact absurd hr List.not_mem_nil

/-- The user code of the pool is still quiet. -/
theorem isQuiet (h : first.Does deeds b p) : p.user.IsQuiet := by
  have := h.quiet
  rwa [← h.bench] at this

/-- The pool has changed, and nothing that is remembered has. -/
theorem change (h : first.Does deeds b p) (hh : q.history = p.history)
    (hd : q.destroyed = p.destroyed) (hb : q.brittle = p.brittle)
    (hq : q.bench = c) (hu : c.user.IsQuiet) :
    first.Does deeds c q where
  bench := hq
  history := hh ▸ h.history
  deeds := (deedsSince_of_eq hh).trans h.deeds
  destroyed := hd ▸ h.destroyed
  brittle := hb ▸ h.brittle
  quiet := hu
  needed := by
    have := h.needed
    rw [recordsSince] at this ⊢
    rwa [hh]

/-- The pool has changed as the state that operations work with says. -/
theorem update (h : first.Does deeds b p) (g : Bench → Bench) (hq : q.bench = g p.bench)
    (hh : q.history = p.history) (hd : q.destroyed = p.destroyed) (hb : q.brittle = p.brittle)
    (hu : (g b).user.IsQuiet) : first.Does deeds (g b) q :=
  h.change hh hd hb (hq.trans (congrArg g h.bench)) hu

/-- One more entry in the history. -/
theorem note (h : first.Does deeds b p) {e : Entry}
    (he : e = .factory .acquire → b.table.Lacks first.config.maxCount) :
    first.Does (deeds ++ if e.isDeed then [e] else []) b (p.note e) where
  bench := h.bench
  history := h.history.trans (List.suffix_cons _ _)
  deeds := by rw [deedsSince_note h.history, h.deeds]
  destroyed := h.destroyed
  brittle := h.brittle
  quiet := h.quiet
  needed r hr hf := by
    rw [recordsSince_note h.history, List.mem_append, List.mem_singleton] at hr
    rcases hr with hr | rfl
    · exact h.needed r hr hf
    · have hb := he hf
      rwa [← h.bench] at hb

/-- One more deed. -/
theorem deed (h : first.Does deeds b p) {e : Entry} (hd : e.isDeed = true)
    (he : e = .factory .acquire → b.table.Lacks first.config.maxCount) :
    first.Does (deeds ++ [e]) b (p.note e) := by
  have := h.note he
  rwa [if_pos hd] at this

/-- One more entry that is no deed. -/
theorem remark (h : first.Does deeds b p) {e : Entry} (hd : e.isDeed = false) :
    first.Does deeds b (p.note e) := by
  have := h.note (e := e) (by rintro rfl; cases hd)
  rwa [hd, if_neg Bool.false_ne_true, List.append_nil] at this

end Pool.Does

end LeasePool
