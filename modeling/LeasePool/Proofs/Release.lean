import LeasePool.Proofs.Broken
import LeasePool.Proofs.Leases
import LeasePool.Proofs.Ledger
import LeasePool.Proofs.Returns
import LeasePool.Proofs.Slots

/-!
# The release of a lease

A lease is released when its last handle is let go of. The release finds out whether the resource is
kept, settles the slot in one go, and tells the hook. The check may run any operations on the pool,
so the slot may have left the table before it is settled.
-/

namespace LeasePool

namespace Table.IsSound

variable {t : Table Nat}

/-- A slot is taken out as broken if it is in the table. -/
theorem invalidate_cases (h : t.IsSound) (id : Nat) : id ∉ t.ids ∧ (t.invalidate id).1 = none ∨
    ∃ s ∈ t.slots, s.id = id ∧ (t.invalidate id).1 = some { s with state := .invalid } := by
  by_cases hid : id ∈ t.ids
  · obtain ⟨s, hs, rfl⟩ := List.mem_map.1 hid
    exact .inr ⟨s, hs, rfl, (h.isWith.perm (List.perm_cons_erase hs)).invalidate_fst⟩
  · refine .inl ⟨hid, Option.eq_none_iff_forall_ne_some.2 fun s hs => hid ?_⟩
    have hids := map_invalidate (f := (·.id)) (fun _ => rfl) t id
    refine hids.mem_iff.2 (List.mem_append_left _ (List.mem_map.2 ⟨s, ?_, id_of_invalidate hs⟩))
    exact Option.mem_toList.2 hs

end Table.IsSound

open Pool (publicRun)

namespace PoolM

variable {nested : Op → PoolM Reply} {p q : Pool} {lease : Lease}

/-- What a release finds out about the resource of its lease, and what it leaves. Nothing is checked
if the lease was invalidated, if there are no checks on release, or if the pool is closed. -/
inductive Judges (nested : Op → PoolM Reply) (lease : Lease) (p : Pool) :
    Option DestroyReason → Pool → Prop
  | invalidated (hi : lease.invalidated = true) : Judges nested lease p (some .invalidated) p
  | unchecked (hi : lease.invalidated = false)
      (hc : p.config.checkOnRelease = false ∨ p.closed = true) : Judges nested lease p none p
  | healthy (hi : lease.invalidated = false) (hc : p.config.checkOnRelease = true)
      (ho : p.closed = false) {q : Pool}
      (h : probe nested lease.resource .release p = (.done (.ok .healthy), q)) :
      Judges nested lease p none q
  | unhealthy (hi : lease.invalidated = false) (hc : p.config.checkOnRelease = true)
      (ho : p.closed = false) {q : Pool} {result : Except CheckError Verdict} {why : String}
      (h : probe nested lease.resource .release p = (.done result, q))
      (hr : result ≠ .ok .healthy) (hw : Verdict.objection? result = some why) :
      Judges nested lease p (some .unhealthy) (q.note (.event (.healthCheckFailed lease.slot why)))

/-- An open pool keeps a resource whose check on release finds it healthy. -/
theorem Judges.of_healthy {reason : Option DestroyReason} (h : Judges nested lease p reason q)
    (hi : lease.invalidated = false) (hc : p.config.checkOnRelease = true) (ho : p.closed = false)
    (hr : (probe nested lease.resource .release p).1 = .done (.ok .healthy)) :
    reason = none ∧ q = (probe nested lease.resource .release p).2 := by
  cases h with
  | invalidated hi' =>
    rw [hi] at hi'
    cases hi'
  | unchecked _ hc' =>
    rw [hc, ho] at hc'
    rcases hc' with hc' | hc' <;> cases hc'
  | healthy _ _ _ h => exact ⟨rfl, (congrArg Prod.snd h).symm⟩
  | unhealthy _ _ _ h hsick =>
    rw [h] at hr
    exact absurd (Outcome.done.inj hr) hsick

/-- A check on release is called, and the operations that it runs run out of budget. -/
structure Starves (nested : Op → PoolM Reply) (lease : Lease) (p : Pool) : Prop where
  valid : lease.invalidated = false
  asked : p.config.checkOnRelease = true
  opened : p.closed = false
  called : p.user.checkStyle ≠ none
  exceeds : (runInside nested (p.user.nextCheck lease.resource).1.during
    (p.calledCheck lease.resource .release)).1 = .exceeded

/-- Nothing runs out of budget if the lease was invalidated, if no check is called, or if the check
runs no operation. -/
theorem not_starves (h : lease.invalidated = true ∨ p.config.checkOnRelease = false ∨
    p.closed = true ∨ p.user.checkStyle = none ∨
    (p.user.nextCheck lease.resource).1.during = []) : ¬Starves nested lease p := by
  rintro ⟨hvalid, hasked, hopened, hcalled, hexceeds⟩
  rcases h with h | h | h | h | h
  · rw [hvalid] at h
    cases h
  · rw [hasked] at h
    cases h
  · rw [hopened] at h
    cases h
  · exact hcalled h
  · rw [h] at hexceeds
    cases hexceeds

/-- How the slot of an ended lease is settled. The release is counted once, and other slots stay. A
resource that is kept becomes idle again, if its slot is still there. One that is not kept leaves
the table for good, and its slot is reported as destroyed if it was still there. -/
structure Settles (lease : Lease) (reason : Option DestroyReason) (p q : Pool) : Prop where
  counted : q.tally.released = p.tally.released + 1
  returned : q.returned = lease.slot :: p.returned
  others : ∀ s, s.id ≠ lease.slot → (s ∈ q.table.slots ↔ s ∈ p.table.slots)
  kept : reason = none → q.events = p.events ∧ q.clock = p.clock.read ∧
    ∀ s, s.id = lease.slot → (s ∈ q.table.slots ↔ ∃ old ∈ p.table.slots, old.id = lease.slot ∧
      old.state = .inUse ∧ s = { old with state := .idle, lastUsed := q.clock.now })
  broken : ∀ why, reason = some why →
    q.events = p.events ++
      (if lease.slot ∈ p.table.ids then [.resourceDestroyed lease.slot why] else []) ∧
    ∀ r, q.Steps r → ∀ s ∈ r.table.slots, s.id ≠ lease.slot ∧ s.resource ≠ lease.resource

/-- A slot that is kept is idle, and was used last at that moment. -/
theorem Settles.idle (h : Settles lease none p q)
    (hold : ∃ s ∈ p.table.slots, s.id = lease.slot ∧ s.state = .inUse) :
    ∃ s ∈ q.table.slots, s.id = lease.slot ∧ s.state = .idle ∧ s.lastUsed = q.clock.now := by
  obtain ⟨old, hold, hid, hstate⟩ := hold
  exact ⟨_, ((h.kept rfl).2.2 { old with state := .idle, lastUsed := q.clock.now } hid).2
    ⟨old, hold, hid, hstate, rfl⟩, hid, rfl, rfl⟩

/-- A check on release ends with a verdict, and leaves the stack as it found it. -/
theorem Nests.probe_release (hn : Nests publicRun nested)
    (hb : p.Backs lease.resource .release) :
    Spec publicRun (probe nested lease.resource .release) p (fun _ q => q.holdings = p.holdings)
      fun _ _ => False := by
  rw [← bind_pure (PoolM.probe nested lease.resource .release)]
  refine hn.probe_bind hb nofun (fun _ => .pure rfl) fun result q hq _ => ?_
  exact .change (.single (.conclude lease.resource .release result (hb.of_holdings hq))) (.pure hq)

/-- A check ends once its operations have. -/
theorem examined_ne_exceeded (style : CheckStyle) (resource : Nat) (outcome : Examination)
    (p : Pool) : (examined style resource outcome p).1 ≠ .exceeded := by
  cases outcome with
  | silence => cases style <;> nofun
  | panic panic => cases style <;> nofun
  | answer | abandonment => nofun

/-- The wait for a verdict ends. -/
theorem awaitVerdict_ne_exceeded (resource : Nat) (checker : Checker) (probe : Probe) (p : Pool) :
    (awaitVerdict resource checker probe p).1 ≠ .exceeded := by
  cases probe <;> nofun

/-- A check runs out of budget only in the operations that it runs. A panic of it leaves nothing to
unwind. -/
theorem Nests.exceeds_of_probe (hn : Nests publicRun nested) (hp : p.IsTame) {resource : Nat}
    {checker : Checker} (hb : p.Backs resource checker)
    (h : (PoolM.probe nested resource checker p).1 = .exceeded) :
    p.user.checkStyle ≠ none ∧ (runInside nested (p.user.nextCheck resource).1.during
      (p.calledCheck resource checker)).1 = .exceeded := by
  unfold PoolM.probe at h
  rw [bind_of_done (read_apply _ p)] at h
  cases hs : p.user.checkStyle with
  | none =>
    rw [hs] at h
    cases h
  | some style =>
    refine ⟨nofun, ?_⟩
    rw [hs] at h
    rcases exceeded_of_bind h with h | ⟨ending, q, -, h⟩
    · rcases exceeded_of_attempt h with hcall | ⟨panic, q, hcall, hunwind⟩
      · have hcall : ((runInside nested (p.user.nextCheck resource).1.during >>= fun _ =>
            examined style resource (p.user.nextCheck resource).1.outcome)
            (p.calledCheck resource checker)).1 = .exceeded := hcall
        rcases exceeded_of_bind hcall with h | ⟨_, q, -, h⟩
        · exact h
        · exact absurd h (examined_ne_exceeded _ _ _ _)
      · have hanswer : PoolM.answerCheck nested style resource (p.note (.check resource checker)) =
            (.panicked panic, q) := hcall
        have hkept := (hn.answerCheck style hb
          (hp.of_eq rfl (fun _ => id) fun _ => List.mem_cons_of_mem _)).2
        rw [hanswer] at hkept
        rw [show q.holdings = p.holdings from hkept, Nat.sub_self] at hunwind
        cases hunwind
    · exact absurd h (awaitVerdict_ne_exceeded _ _ _ _)

/-- A release finds out whether the resource is kept, unless its check runs out of budget. Meanwhile
the running operation owns the slot. -/
theorem Nests.judges (hn : Nests publicRun nested) (hp : p.IsTame)
    (hh : .slot .release lease.slot lease.resource ∈ p.holdings) :
    Starves nested lease p ∨ ∃ reason q,
      objection nested lease p = (.done reason, q) ∧ Judges nested lease p reason q ∧
        p.Steps q ∧ q.holdings = p.holdings := by
  unfold objection
  cases hi : lease.invalidated with
  | true => exact .inr ⟨_, p, rfl, .invalidated hi, .refl, rfl⟩
  | false =>
    rw [if_neg nofun, bind_apply, read_apply]
    dsimp only
    cases hc : p.config.checkOnRelease && !p.closed with
    | false =>
      refine .inr ⟨_, p, rfl, .unchecked hi ?_, .refl, rfl⟩
      rw [Bool.and_eq_false_iff, Bool.not_eq_false'] at hc
      exact hc
    | true =>
      obtain ⟨hc, ho⟩ := Bool.and_eq_true_iff.1 hc
      have ho : p.closed = false := by simpa using ho
      have hb : p.Backs lease.resource .release := ⟨lease.slot, hh⟩
      obtain ⟨hsteps, hend⟩ := hn.probe_release hb hp
      rw [if_pos rfl, bind_apply]
      generalize hprobe : PoolM.probe nested lease.resource .release p = ending at hsteps hend
      obtain ⟨result | panic | _, r⟩ := ending
      · cases hw : Verdict.objection? result with
        | none =>
          obtain rfl := (Verdict.objection?_eq_none_iff result).1 hw
          exact .inr ⟨_, r, rfl, .healthy hi hc ho hprobe, hsteps, hend⟩
        | some why =>
          have hr : result ≠ .ok .healthy := fun he => by
            rw [(Verdict.objection?_eq_none_iff result).2 he] at hw
            cases hw
          refine .inr ⟨_, r.note (.event (.healthCheckFailed lease.slot why)), ?_,
            .unhealthy hi hc ho hprobe hr hw, hsteps.tail (.remark _ trivial), hend⟩
          simp only [hw]
          rfl
      · exact hend.elim
      · obtain ⟨hs, hexceeds⟩ := hn.exceeds_of_probe hp hb (congrArg Prod.fst hprobe)
        exact .inl ⟨hi, hc, ho, hs, hexceeds⟩

/-- A slot that is given back becomes idle, if it is still there. -/
theorem settles_giveBack (hp : p.IsExclusive)
    (hh : .slot .release lease.slot lease.resource ∈ p.holdings) :
    Settles lease none p (giveBack lease p).2 where
  counted := rfl
  returned := rfl
  others s hne := by
    change s ∈ (p.table.modify lease.slot _).slots ↔ _
    constructor
    · intro hs
      rcases Table.mem_modify_iff_or hs with ⟨hs, -⟩ | ⟨old, -, hid, rfl⟩
      · exact hs
      · exact absurd hid hne
    · exact fun hs => Table.mem_modify_of_ne hs hne.symm _
  kept _ := by
    refine ⟨rfl, rfl, fun s hid => ?_⟩
    change s ∈ (p.table.modify lease.slot _).slots ↔ _
    have hstate : ∀ old ∈ p.table.slots, old.id = lease.slot → old.state = .inUse :=
      fun old hold hid => (hp.of_owner (Pool.mem_owners_of_holding hh rfl) hold hid).1
    constructor
    · intro hs
      rcases Table.mem_modify_iff_or hs with ⟨-, hne⟩ | ⟨old, hold, hid, rfl⟩
      · exact absurd hid hne
      · exact ⟨old, hold, hid, hstate old hold hid, rfl⟩
    · rintro ⟨old, hold, hid, -, rfl⟩
      exact Table.mem_modify.2 ⟨old, hold, (if_pos hid).symm⟩
  broken _ := nofun

/-- The destructor of a resource that is still held does nothing when a slot of it is destroyed. -/
theorem destroyOne_of_isHeld {reason : DestroyReason} {s : Slot Nat}
    (hh : (p.strikeOff reason s).isHeld s.resource = true) :
    destroyOne nested reason s p = (.done (), p.strikeOff reason s) := by
  have hbury : p.bury reason s = p.strikeOff reason s := if_pos hh
  have hparting : (p.strikeOff reason s).parting s.resource = ([], false) := if_pos hh
  rw [destroyOne_apply, hbury, hparting]
  rfl

/-- The slots that a release takes out are those with the number of its lease, if there is one. The
operation refers to their resource. -/
theorem removed_of_giveUp (hp : p.IsExclusive)
    (hh : .slot .release lease.slot lease.resource ∈ p.holdings) :
    lease.slot ∉ p.table.ids ∧ (p.table.invalidate lease.slot).1.toList = [] ∨
    lease.slot ∈ p.table.ids ∧ ∃ s : Slot Nat, s.id = lease.slot ∧ s.resource = lease.resource ∧
      (p.table.invalidate lease.slot).1.toList = [s] := by
  rcases hp.sound.invalidate_cases lease.slot with ⟨hid, hnone⟩ | ⟨s, hs, hid, hsome⟩
  · exact .inl ⟨hid, by rw [hnone, Option.toList_none]⟩
  · have hresource := (hp.of_owner (Pool.mem_owners_of_holding hh rfl) hs hid).2
    refine .inr ⟨List.mem_map.2 ⟨s, hs, hid⟩, { s with state := .invalid }, hid, hresource, ?_⟩
    rw [hsome, Option.toList_some]

/-- A slot that is not kept is taken out, if it is still there, and destroyed. -/
theorem settles_giveUp (hp : p.IsExclusive)
    (hh : .slot .release lease.slot lease.resource ∈ p.holdings) (why : DestroyReason) :
    ∃ q, (giveUp lease why >>= destroy nested why) p = (.done (), q) ∧
      Settles lease (some why) p q := by
  let taken := (giveUp lease why p).2
  have hlost : taken.Lost lease.slot lease.resource := hp.lost hh why
  have hothers : ∀ s, s.id ≠ lease.slot → (s ∈ taken.table.slots ↔ s ∈ p.table.slots) := by
    intro s hne
    refine (Table.slots_invalidate hp.sound.nodup lease.slot).mem_iff.trans ?_
    rw [List.mem_filter, bne_iff_ne]
    exact and_iff_left hne
  have hgone : ∀ {q : Pool}, q.Lost lease.slot lease.resource → ∀ r, q.Steps r →
      ∀ s ∈ r.table.slots, s.id ≠ lease.slot ∧ s.resource ≠ lease.resource :=
    fun hq r hr s hs => (hq.steps hr).unbound (.of_slot hs)
  have hgive : giveUp lease why p = (.done (p.table.invalidate lease.slot).1.toList, taken) := rfl
  rw [bind_of_done hgive]
  rcases removed_of_giveUp hp hh with ⟨hid, hnone⟩ | ⟨hid, s, hsid, hresource, hone⟩
  · refine ⟨taken, by rw [hnone]; rfl, rfl, rfl, hothers, nofun, ?_⟩
    rintro _ ⟨⟩
    refine ⟨?_, hgone hlost⟩
    rw [if_neg hid, List.append_nil]
    rfl
  · let left := taken.strikeOff why s
    have hheld : left.isHeld s.resource = true := by
      have hne : Holding.reference lease.resource ≠ .removed why s := nofun
      have hmem : Holding.reference lease.resource ∈ taken.holdings :=
        List.mem_append_right _ List.mem_cons_self
      refine (Pool.isHeld_iff _ _).2 (.inr (.inr (.inl ⟨.reference lease.resource, ?_, ?_⟩)))
      · exact (List.mem_erase_of_ne hne).2 hmem
      · rw [hresource]
        rfl
    have hleft : left.Lost lease.slot lease.resource :=
      Gone.reorder (t := taken.table) hlost (Pool.owners_unhold_none rfl)
        (Pool.products_unhold_none rfl)
    have hdestroy : destroy nested why [s] taken = (.done (), left) := by
      unfold destroy
      rw [bind_of_done (destroyOne_of_isHeld hheld)]
      rfl
    refine ⟨left, by rw [hone, hdestroy], rfl, rfl, hothers, nofun, ?_⟩
    rintro _ ⟨⟩
    refine ⟨?_, hgone hleft⟩
    rw [if_pos hid, ← hsid]
    exact List.reverse_cons

/-- A release that knows what to do settles the slot, and then calls the hook. -/
theorem release_of_objection {reason : Option DestroyReason} {checked : Pool}
    (ho : objection nested lease p = (.done reason, checked)) (hp : checked.IsExclusive)
    (hh : .slot .release lease.slot lease.resource ∈ checked.holdings) :
    ∃ settled, Settles lease reason checked settled ∧
      release nested lease p = callHook nested .released settled := by
  unfold release
  rw [bind_of_done ho]
  cases reason with
  | none => exact ⟨_, settles_giveBack hp hh, rfl⟩
  | some why =>
    obtain ⟨settled, hsettled, hsettles⟩ := settles_giveUp hp hh why
    refine ⟨settled, hsettles, ?_⟩
    rw [← bind_of_done hsettled fun _ => callHook nested .released, bind_assoc]

/-- A handle that is not the last one of its lease is let go of, and nothing else happens. -/
theorem releaseUnheld_of_other {id : Nat} (h : (p.unhold (.handle id)).HasHandle id) :
    releaseUnheld nested id p = (.done (), p.unhold (.handle id)) := by
  have hended : endLease id p = (.done none, p.unhold (.handle id)) := by
    simp only [endLease, update_apply]
    rw [if_pos (hasHandle_iff.2 h)]
  exact bind_of_done hended _

/-- With the last handle the lease ends, and is released. The operation then lets go of the
resource. -/
theorem releaseUnheld_of_last (hp : p.IsLinked) (hl : lease ∈ p.leases)
    (h : ¬(p.unhold (.handle lease.id)).HasHandle lease.id) :
    releaseUnheld nested lease.id p =
      (release nested lease >>= fun _ => letGo nested (.reference lease.resource))
        (p.ended lease) := by
  have hfind : p.leases.find? (·.id == lease.id) = some lease := by
    refine (List.find?_eq_some_iff_append).2 ⟨beq_self_eq_true _, ?_⟩
    obtain ⟨before, after, he⟩ := List.append_of_mem hl
    refine ⟨before, after, he, fun other hother => ?_⟩
    have hids := hp.ids
    rw [he, List.map_append, List.map_cons] at hids
    have hne := (List.nodup_append.1 hids).2.2 other.id (List.mem_map_of_mem hother) lease.id
      List.mem_cons_self
    simpa using hne
  have hended : endLease lease.id p = (.done (some lease), p.ended lease) := by
    have hleases : (p.unhold (.handle lease.id)).leases = p.leases := rfl
    simp only [endLease, update_apply]
    rw [if_neg (mt hasHandle_iff.1 h), hleases, hfind]
    rfl
  exact bind_of_done hended _

end PoolM

namespace Pool

open PoolM (Nests)

variable {p q : Pool} {l : Lease}

/-- A lease goes on, with the same slot and the same resource. It is invalidated if it was before or
has been since. Its slot is as it was, unless a drain has taken it out of the table. -/
structure Lasts (l : Lease) (p q : Pool) (l' : Lease) : Prop where
  mem : l' ∈ q.leases
  id : l'.id = l.id
  slot : l'.slot = l.slot
  resource : l'.resource = l.resource
  invalidated : l'.invalidated = true ↔ l.invalidated = true ∨
    ∃ m, p.Steps m ∧ (PoolM.invalidateLease l.id m).2.Steps q
  unchanged : ∀ s ∈ p.table.slots, s.id = l.slot → s ∈ q.table.slots ∨
    ∃ m, p.Steps m ∧ s ∈ m.table.slots ∧ (PoolM.takeOut .shutdown (·.drain) m).2.Steps q

/-- A lease lasts for as long as it has a handle. -/
theorem Arises.lasts (hp : p.Arises) (hl : l ∈ p.leases) (h : p.Steps q) (hq : q.HasHandle l.id) :
    ∃ l', Lasts l p q l' := by
  have hq := ((hp.steps h).isLinked.handled l.id).1 hq
  obtain ⟨l', hl'⟩ := hp.goesOn hl h hq
  refine ⟨l', hl'.mem, hl'.id, hl'.slot, hl'.resource, ⟨hl'.purpose, ?_⟩, hl'.unchanged⟩
  rintro (hi | ⟨m, hpm, hmq⟩)
  · exact hl'.stays hi
  · exact hp.invalidated_of_steps hpm (hp.isLinked.fresh l hl) hmq hl'.mem hl'.id

/-- A lease that has ended does not come back. -/
theorem Arises.not_hasHandle_of_steps (hp : p.Arises) {id : Nat} (hid : id < p.nextLease)
    (h : p.Steps q) (hno : ¬p.HasHandle id) : ¬q.HasHandle id := by
  rw [hp.isLinked.handled] at hno
  rw [(hp.steps h).isLinked.handled]
  exact mt (Steps.exists_lease h hid) hno

/-- While an operation releases a lease, its slot is nobody else's: as long as it is in the table it
is in use. Unless the check runs out of budget, the release finds out whether the resource is
kept, settles the slot, and calls the hook for releases. -/
theorem Arises.releases (hp : p.Arises) (hl : l ∈ p.leases) (hh : .handle l.id ∈ p.holdings)
    (hno : ¬(p.unhold (.handle l.id)).HasHandle l.id) (budget : Nat) :
    PoolM.Starves (PoolM.run budget) l (p.ended l) ∨
    ∃ reason checked settled, PoolM.Judges (PoolM.run budget) l (p.ended l) reason checked ∧
      (p.ended l).Steps checked ∧ PoolM.Settles l reason checked settled ∧
      PoolM.releaseUnheld (PoolM.run budget) l.id p = (do
        PoolM.callHook (PoolM.run budget) .released
        PoolM.letGo (PoolM.run budget) (.reference l.resource) : PoolM Unit) settled := by
  have hended : (p.ended l).Arises := hp.steps (.single (.endLease l hl hh hno))
  have howned : .slot .release l.slot l.resource ∈ (p.ended l).holdings := List.mem_cons_self
  have hnests := PoolM.nests_run (d := publicRun) budget
  rcases hnests.judges hended.isTame howned with
    hstarves | ⟨reason, checked, ho, hj, hsteps, hstack⟩
  · exact .inl hstarves
  · have hexclusive := (hended.steps hsteps).isExclusive
    obtain ⟨settled, hsettles, hrelease⟩ :=
      PoolM.release_of_objection ho hexclusive (hstack ▸ howned)
    refine .inr ⟨reason, checked, settled, hj, hsteps, hsettles, ?_⟩
    rw [PoolM.releaseUnheld_of_last hp.isLinked hl hno, PoolM.bind_apply, hrelease]
    rfl

/-- A lease is released once, and completely. For as long as it has a handle it lasts, and its slot
stays as it is. A handle that is let go of leaves everything else alone, unless it is the last one.
With the last one the lease ends and does not come back, and it is released: the resource is judged,
the slot is settled, and the hook is called. At any moment every hand-out was returned once, or it
has a lease, or a running operation is about to return it, and the counter of releases goes along.
Between operations every hand-out was returned once or has a lease. -/
theorem Arises.released_once (hp : p.Arises) (hl : l ∈ p.leases) (budget : Nat) :
    (∀ q, p.Steps q → (q.HasHandle l.id → ∃ l', Lasts l p q l') ∧
      (¬q.HasHandle l.id → ∀ r, q.Steps r → ¬r.HasHandle l.id)) ∧
    (.handle l.id ∈ p.holdings →
      ((p.unhold (.handle l.id)).HasHandle l.id →
        PoolM.releaseUnheld (PoolM.run budget) l.id p = (.done (), p.unhold (.handle l.id))) ∧
      (¬(p.unhold (.handle l.id)).HasHandle l.id →
        PoolM.Starves (PoolM.run budget) l (p.ended l) ∨
        ∃ reason checked settled, PoolM.Judges (PoolM.run budget) l (p.ended l) reason checked ∧
          (p.ended l).Steps checked ∧ PoolM.Settles l reason checked settled ∧
          PoolM.releaseUnheld (PoolM.run budget) l.id p = (do
            PoolM.callHook (PoolM.run budget) .released
            PoolM.letGo (PoolM.run budget) (.reference l.resource) : PoolM Unit) settled)) ∧
    p.handedOut.Perm (p.returned ++ p.engaged) ∧ p.tally.released = .ofNat p.returned.length ∧
    (p.Reachable → p.handedOut.Perm (p.returned ++ p.leases.map (·.slot))) := by
  refine ⟨fun q hpq => ⟨hp.lasts hl hpq, fun hno r hqr => ?_⟩, fun hh => ⟨?_, ?_⟩,
    hp.isReturning.slots, hp.isReturning.counted, Reachable.handedOut_perm⟩
  · have hid : l.id < q.nextLease :=
      Nat.lt_of_lt_of_le (hp.isLinked.fresh l hl) (Steps.nextLease_le hpq)
    exact (hp.steps hpq).not_hasHandle_of_steps hid hqr hno
  · exact PoolM.releaseUnheld_of_other
  · exact fun hno => hp.releases hl hh hno budget

/-- Of two leases one is dropped as it is, and its check on release runs an operation. Its slot
becomes idle, and was used last at that moment. The other one was invalidated by a second handle,
which is dropped first. With its last handle the slot is destroyed, and nothing is checked. -/
theorem released_once_two_leases :
    let check : CheckRoutine := ⟨[], ⟨[.status], .answer (.ok .healthy)⟩⟩
    let user : UserCode :=
      { UserCode.plain with checkStyle := some .direct, checkDefault := check }
    let first := (PoolM.run 2 (.acquire "a") (new "pool" { checkOnRelease := true } user)).2
    let second := (PoolM.run 2 (.acquire "b") first).2
    let shared := (PoolM.run 2 (.share "b" "c") second).2
    let broken := (PoolM.run 2 (.invalidate "c") shared).2
    let dropped := (PoolM.run 2 (.drop "c") broken).2
    let p := (PoolM.unnameHandle "a" dropped).2
    let q := (PoolM.unnameHandle "b" dropped).2
    dropped.tally.released = 0 ∧
    (∃ settled : Pool,
      (∃ s ∈ settled.table.slots, s.id = 1 ∧ s.state = .idle ∧ s.lastUsed = settled.clock.now) ∧
      settled.tally.released = 1 ∧
      PoolM.releaseUnheld (PoolM.run 1) 0 p = (do
        PoolM.callHook (PoolM.run 1) .released
        PoolM.letGo (PoolM.run 1) (.reference 0) : PoolM Unit) settled) ∧
    ∃ settled : Pool, settled.events = dropped.events ++ [.resourceDestroyed 2 .invalidated] ∧
      settled.tally.released = 1 ∧
      PoolM.releaseUnheld (PoolM.run 1) 1 q = (do
        PoolM.callHook (PoolM.run 1) .released
        PoolM.letGo (PoolM.run 1) (.reference 1) : PoolM Unit) settled := by
  intro check user first second shared broken dropped p q
  have huser : user.Runs Op.IsPublic :=
    { UserCode.plain_runs _ with
      checkDefault := List.forall_mem_singleton.2 (.of_installs_eq_nil rfl rfl) }
  have hstart : Reachable (new "pool" { checkOnRelease := true } user) :=
    reachable_new "pool" _ huser (by decide)
  have hfirst : first.Reachable :=
    hstart.next (.of_installs_eq_nil rfl rfl) (by decide +kernel)
  have hsecond : second.Reachable :=
    hfirst.next (.of_installs_eq_nil rfl rfl) (by decide +kernel)
  have hshared : shared.Reachable :=
    hsecond.next (.of_installs_eq_nil rfl rfl) (by decide +kernel)
  have hbroken : broken.Reachable :=
    hshared.next (.of_installs_eq_nil rfl rfl) (by decide +kernel)
  have hdropped : dropped.Reachable :=
    hbroken.next (.of_installs_eq_nil rfl rfl) (by decide +kernel)
  have hlast (r : Pool) (l : Lease) (h : ¬(r.unhold (.handle l.id)).handles.any (·.2 == l.id) ∧
      ¬(r.unhold (.handle l.id)).holdings.contains (.handle l.id)) :
      ¬(r.unhold (.handle l.id)).HasHandle l.id :=
    mt PoolM.hasHandle_iff.2 (by simpa using h)
  have hended (r : Pool) (name : String) (l : Lease) :
      ((PoolM.unnameHandle name r).2.ended l).events = r.events := rfl
  refine ⟨by decide +kernel, ?_, ?_⟩
  · let lease : Lease := { id := 0, slot := 1, resource := 0 }
    have hp : p.Arises := hdropped.arises.steps (.single (.unnameHandle "a"))
    have hl : lease ∈ p.leases := by decide +kernel
    have hh : .handle lease.id ∈ p.holdings := by decide +kernel
    rcases ((hp.released_once hl 1).2.1 hh).2 (hlast p lease (by decide +kernel)) with hstarves |
      ⟨_, checked, settled, hjudges, -, hsettles, hrelease⟩
    · exact absurd hstarves.exceeds (by decide +kernel)
    · obtain ⟨rfl, hchecked⟩ := hjudges.of_healthy rfl (by decide +kernel) (by decide +kernel)
        (by decide +kernel)
      have hleft : (∃ s ∈ checked.table.slots, s.id = lease.slot ∧ s.state = .inUse) ∧
          checked.tally.released + 1 = 1 := by
        rw [hchecked]
        decide +kernel
      exact ⟨settled, hsettles.idle hleft.1, hsettles.counted.trans hleft.2, hrelease⟩
  · let lease : Lease := { id := 1, slot := 2, resource := 1, invalidated := true }
    have hq : q.Arises := hdropped.arises.steps (.single (.unnameHandle "b"))
    have hl : lease ∈ q.leases := by decide +kernel
    have hh : .handle lease.id ∈ q.holdings := by decide +kernel
    rcases ((hq.released_once hl 1).2.1 hh).2 (hlast q lease (by decide +kernel)) with hstarves |
      ⟨_, checked, settled, hjudges, -, hsettles, hrelease⟩
    · exact absurd hstarves (PoolM.not_starves (.inl rfl))
    · cases hjudges with
      | invalidated =>
        have hid : 2 ∈ (q.ended lease).table.ids := by decide +kernel
        have hevents : (q.ended lease).events = dropped.events := hended dropped "b" lease
        refine ⟨settled, ?_, hsettles.counted.trans (by decide +kernel), hrelease⟩
        rw [(hsettles.broken _ rfl).1, if_pos hid, hevents]
      | unchecked hi | healthy hi | unhealthy hi => cases hi

end Pool

end LeasePool
