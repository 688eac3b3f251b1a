import LeasePool.Proofs.Quiet
import LeasePool.Proofs.Capacity
import LeasePool.Pool.Report

/-!
# Acquisitions that fail

An acquisition may fail at each call of user code, while it has claimed a slot or holds a
reservation. It gives either back on every way out but one: if the callback for acquisitions panics,
the claimed slot stays in use although nobody has a lease of it.
-/

namespace LeasePool

namespace Table

variable {t₀ t u : Table Nat} {id : Nat}

/-- The slots in use are those of an earlier table. -/
structure Keeps (t₀ t : Table Nat) : Prop where
  sound : t.IsSound
  held : t.held.Perm t₀.held

/-- One more slot is in use than in an earlier table. -/
structure Gains (t₀ : Table Nat) (id : Nat) (t : Table Nat) : Prop where
  sound : t.IsSound
  gained : ∃ s ∈ t.held, s.id = id
  held : (t.held.filter (·.id != id)).Perm t₀.held

/-- Only the slots and the next number matter to the slots in use. -/
theorem Keeps.of_eq (h : t₀.Keeps t) (hs : u.slots = t.slots) (hn : u.nextId = t.nextId) :
    t₀.Keeps u where
  sound := h.sound.of_eq hs hn
  held := by
    rw [Table.held, hs]
    exact h.held

/-- Only the slots and the next number matter to a slot that came into use. -/
theorem Gains.of_eq (h : t₀.Gains id t) (hs : u.slots = t.slots) (hn : u.nextId = t.nextId) :
    t₀.Gains id u := by
  have hheld : u.held = t.held := by
    rw [Table.held, hs]
    rfl
  exact ⟨h.sound.of_eq hs hn, hheld ▸ h.gained, hheld ▸ h.held⟩

/-- An idle slot that is claimed is gained. -/
theorem Keeps.claim (h : t₀.Keeps t) {s : Slot Nat} (hc : t.claimIdle = some (s, u)) :
    t₀.Gains s.id u := by
  obtain ⟨s', hs', hidle, rfl, rfl⟩ := claimIdle_eq_some hc
  refine ⟨h.sound.modify (fun _ => rfl) fun _ _ => nofun, ?_, ?_⟩
  · refine ⟨{ s' with state := .inUse }, mem_held.2 ⟨mem_modify.2 ⟨s', hs', ?_⟩, rfl⟩, rfl⟩
    rw [if_pos rfl]
  · have hother : t.held.filter (·.id != s'.id) = t.held := by
      refine List.filter_eq_self.2 fun x hx => bne_iff_ne.2 fun hid => ?_
      obtain ⟨hmem, hstate⟩ := mem_held.1 hx
      rw [h.sound.eq_of_id hmem hs' hid, hidle] at hstate
      cases hstate
    have hrest : (t.setState s'.id .inUse).held.filter (·.id != s'.id) =
        t.held.filter (·.id != s'.id) := by
      apply filter_held_modify
      exact fun _ => rfl
    rw [hrest, hother]
    exact h.held

/-- A new slot in use is gained. -/
theorem Keeps.commit (h : t₀.Keeps t) (resource : Nat) (now : Instant) :
    t₀.Gains t.nextId (t.commit resource .inUse now).2 := by
  have hheld : (t.commit resource .inUse now).2.held = t.held ++ [{
      id := t.nextId, resource, state := .inUse, createdAt := now, lastUsed := now
      lastCheck := none }] :=
    List.filter_append ..
  refine ⟨h.sound.commit nofun, ?_, ?_⟩
  · rw [hheld]
    exact ⟨_, List.mem_append_right _ (List.mem_singleton_self _), rfl⟩
  · have hother : t.held.filter (·.id != t.nextId) = t.held := by
      refine List.filter_eq_self.2 fun x hx => bne_iff_ne.2 ?_
      exact Nat.ne_of_lt (h.sound.fresh x (mem_held.1 hx).1)
    rw [hheld, List.filter_append, hother, List.filter_cons_of_neg (by simp), List.filter_nil,
      List.append_nil]
    exact h.held

/-- A gained slot may be changed for as long as it stays in use. -/
theorem Gains.modify (h : t₀.Gains id t) {change : Slot Nat → Slot Nat}
    (hid : ∀ s, (change s).id = s.id) (hst : ∀ s, (change s).state = s.state) :
    t₀.Gains id (t.modify id change) := by
  refine ⟨h.sound.modify hid fun s hs => hst s ▸ hs, ?_, ?_⟩
  · obtain ⟨s, hs, rfl⟩ := h.gained
    obtain ⟨hmem, hstate⟩ := mem_held.1 hs
    refine ⟨change s, mem_held.2 ⟨mem_modify.2 ⟨s, hmem, ?_⟩, (hst s).trans hstate⟩, hid s⟩
    rw [if_pos rfl]
  · rw [filter_held_modify hid]
    exact h.held

/-- What was gained is lost again when the slot leaves the table. -/
theorem Gains.invalidate (h : t₀.Gains id t) : t₀.Keeps (t.invalidate id).2 where
  sound := (prunes_invalidate h.sound.nodup id).isSound h.sound
  held := by
    have hperm := (slots_invalidate h.sound.nodup id).filter (·.state == .inUse)
    rw [← filter_held] at hperm
    exact hperm.trans h.held

/-- A gained slot was not in use before. -/
theorem Gains.ne (h : t₀.Gains id t) {s : Slot Nat} (hs : s ∈ t₀.held) : s.id ≠ id := by
  have := (List.mem_filter.1 (h.held.mem_iff.2 hs)).2
  simpa using this

/-- What is gained is one slot. -/
theorem Gains.count (h : t₀.Gains id t) : t.count .inUse = t₀.count .inUse + 1 := by
  have hone : (t.held.filter (·.id == id)).length = 1 := by
    have hnodup : (t.held.map (·.id)).Nodup := h.sound.nodup.sublist (List.filter_sublist.map _)
    obtain ⟨s, hs, hid⟩ := h.gained
    have hcount : (t.held.map (·.id)).count id = 1 :=
      List.count_eq_one_of_mem hnodup (List.mem_map.2 ⟨s, hs, hid⟩)
    rw [List.count, List.countP_map, List.countP_eq_length_filter] at hcount
    exact hcount
  have hsplit := (List.filter_append_perm (fun s : Slot Nat => s.id == id) t.held).length_eq
  rw [List.length_append, hone] at hsplit
  have hothers : (t.held.filter fun s => !(s.id == id)).length = t₀.held.length :=
    h.held.length_eq
  simp only [Table.count, List.countP_eq_length_filter]
  change t.held.length = t₀.held.length + 1
  omega

end Table

namespace Pool

variable {p₀ p q : Pool} {id : Nat}

/-- The slots in use are those of an earlier pool, and the callback for acquisitions has not
panicked since. -/
structure Keeps (p₀ p : Pool) : Prop where
  table : p₀.table.Keeps p.table
  unmarked : p₀.Unmarked p

/-- An acquisition has claimed a slot, and the callback for acquisitions has not panicked. -/
structure Claims (p₀ : Pool) (id : Nat) (p : Pool) : Prop where
  table : p₀.table.Gains id p.table
  unmarked : p₀.Unmarked p

/-- A slot has been claimed, and then the callback for acquisitions has panicked. -/
structure Forfeits (p₀ p : Pool) : Prop where
  table : ∃ id, p₀.table.Gains id p.table
  marked : ∃ new, p.history = new ++ p₀.history ∧ ∃ r ∈ new, r.entry = .hookPanicked .acquired

/-- A pool keeps its own slots in use. -/
theorem Keeps.refl (h : p.table.IsSound) : p.Keeps p := ⟨⟨h, .refl _⟩, .of_eq rfl⟩

/-- A calm change keeps the slots in use. -/
theorem Keeps.calm (h : p₀.Keeps p) (hc : p.Calm q) : p₀.Keeps q :=
  ⟨h.table.of_eq hc.slots hc.nextId, h.unmarked.trans hc.unmarked⟩

/-- A calm change keeps the claim. -/
theorem Claims.calm (h : p₀.Claims id p) (hc : p.Calm q) : p₀.Claims id q :=
  ⟨h.table.of_eq hc.slots hc.nextId, h.unmarked.trans hc.unmarked⟩

/-- The callback for acquisitions panics. -/
theorem Claims.forfeit (h : p₀.Claims id p) : p₀.Forfeits (p.note (.hookPanicked .acquired)) := by
  obtain ⟨new, hnew, -⟩ := h.unmarked
  exact ⟨⟨id, h.table⟩, _ :: new, congrArg _ hnew, _, List.mem_cons_self, rfl⟩

/-- Unwinding does not bring a forfeited slot back. -/
theorem Forfeits.unwindTo (h : p₀.Forfeits p) (mark : Nat) : p₀.Forfeits (p.unwindTo mark) := by
  obtain ⟨⟨id, hgains⟩, hmarked⟩ := h
  rw [unwindTo_eq]
  exact ⟨⟨id, hgains.of_eq rfl rfl⟩, hmarked⟩

end Pool

namespace PoolM

open Pool (quietRun)

variable {α : Type} {m : PoolM α} {nested : Op → PoolM Reply} {p₀ p : Pool} {id resource : Nat}

/-- A mild action keeps the slots in use. -/
theorem Mild.keeps (hm : Mild m) (hp : p₀.Keeps p) :
    Spec quietRun m p (fun _ q => p₀.Keeps q) fun _ q => p₀.Keeps q :=
  (hm p).mono (fun _ _ h => hp.calm h) fun _ _ h => hp.calm h

/-- A claim takes the slot that it gives, and nothing if it gives none. -/
theorem quiet_claim (hp : p₀.Keeps p) :
    Spec quietRun claim p (fun slot q => match slot with
        | some (id, _) => p₀.Claims id q
        | none => p₀.Keeps q)
      fun _ q => p₀.Keeps q := by
  intro _
  unfold claim
  rw [update_apply]
  cases hc : p.table.claimIdle with
  | none => exact ⟨fun hu => hu, hp⟩
  | some found =>
    have hgains : p₀.table.Gains found.1.id found.2 := hp.table.claim hc
    exact ⟨fun hu => hu, hgains, hp.unmarked.trans (.of_eq rfl)⟩

/-- A claimed slot stays claimed when it is found healthy. -/
theorem quiet_confirm (hp : p₀.Claims id p) :
    Spec quietRun (confirm id) p (fun _ q => p₀.Claims id q) fun _ q => p₀.Keeps q := by
  refine .update (fun hu => hu) (.change_last (fun hu => hu) ⟨?_, ?_⟩)
  · have hsame : p₀.table.Gains id { p with clock := p.clock.read }.table := hp.table
    exact hsame.modify (fun _ => rfl) fun _ => rfl
  · refine .note ?_ nofun
    exact hp.unmarked

/-- A claimed slot that is broken leaves the table. -/
theorem quiet_takeOutBroken (hp : p₀.Claims id p) :
    Spec quietRun (takeOutBroken .claim id resource .unhealthy) p (fun _ q => p₀.Keeps q)
      fun _ q => p₀.Keeps q := by
  refine .change (fun hu => hu) (.update_last (fun hu => hu) ⟨?_, hp.unmarked.trans (.of_eq rfl)⟩)
  exact hp.table.invalidate

/-- A check leaves the slot claimed if it is healthy. Otherwise the slot is gone, also if a
destructor panics. -/
theorem quiet_verify (hp : p₀.Claims id p) :
    Spec quietRun (verify nested id resource) p (fun healthy q => match healthy with
        | true => p₀.Claims id q
        | false => p₀.Keeps q)
      fun _ q => p₀.Keeps q := by
  have hprobe : Spec quietRun (probe nested resource .access) p (fun _ q => p₀.Claims id q)
      fun _ _ => False :=
    (quiet_probe nested resource .access p).weaken fun _ _ => hp.calm
  refine (hprobe.mono (fun _ _ h => h) fun _ _ => False.elim).bind fun result q hq => ?_
  cases Verdict.objection? result with
  | none => exact (quiet_confirm hq).bind fun _ r hr => .pure hr
  | some reason =>
    refine .change (fun hu => hu) ?_
    have hnoted : p₀.Claims id (q.note (.event (.healthCheckFailed id reason))) :=
      hq.calm (.note nofun)
    refine (quiet_takeOutBroken hnoted).bind fun slots r hr => ?_
    exact ((mild_destroy nested .unhealthy slots).keeps hr).bind fun _ t ht => .pure ht

/-- A slot that does not pass is no longer claimed. -/
theorem quiet_passes (hp : p₀.Claims id p) :
    Spec quietRun (passes nested id resource) p (fun healthy q => match healthy with
        | true => p₀.Claims id q
        | false => p₀.Keeps q)
      fun _ q => p₀.Keeps q := by
  apply Spec.read
  cases p.config.checkOnAccess with
  | true => exact quiet_verify hp
  | false => exact .pure hp

/-- A new resource is claimed as soon as it is in the table. -/
theorem quiet_commit (origin : Origin) (hp : p₀.Keeps p) :
    Spec quietRun (commit resource .inUse origin) p (fun id q => p₀.Claims id q)
      fun _ q => p₀.Keeps q := by
  refine .update (fun hu => hu) (.update (fun hu => hu) ?_)
  refine .change (fun hu => hu) (.change (fun hu => hu) (.pure ⟨?_, ?_⟩))
  · exact hp.table.commit resource p.clock.read.now
  · refine .note ?_ nofun
    exact hp.unmarked

/-- A creation for an acquisition claims what it creates. -/
theorem quiet_createResource (hp : p₀.Keeps p) :
    Spec quietRun (createResource nested .inUse .acquire) p (fun result q => match result with
        | .ok (some (id, _)) => p₀.Claims id q
        | _ => p₀.Keeps q)
      fun _ q => p₀.Keeps q := by
  refine ((mild_produce nested .acquire).keeps hp).bind fun result q hq => ?_
  cases result with
  | ok resource =>
    apply Spec.read
    cases q.closed with
    | true =>
      have hdiscard : Mild (do
          unreserve 1
          trace .debug "pool closed during creation, dropping resource"
            [("origin", .text Origin.acquire.name)]
          letGo nested (.product resource)) :=
        (mild_unreserve 1).bind fun _ => (mild_trace _ _ _).bind fun _ => mild_letGo nested _
      exact (hdiscard.keeps hq).bind fun _ r hr => .pure hr
    | false => exact (quiet_commit .acquire hq).bind fun id r hr => .pure hr
  | error error =>
    have hreport : Mild (do
        unreserve 1
        bump .creationFailures
        emit (.resourceCreationFailed .acquire error.text)) :=
      (mild_unreserve 1).bind fun _ => (mild_bump _).bind fun _ => mild_emit _
    exact (hreport.keeps hq).bind fun _ r hr => .pure hr

/-- A claimed slot is leased, or forfeited if the callback panics. -/
theorem quiet_handOut (hp : p₀.Claims id p) :
    Spec quietRun (handOut nested id resource) p (fun _ _ => True) fun _ q => p₀.Forfeits q := by
  have hcount : Spec quietRun (countAcquired id resource) p (fun _ q => p₀.Claims id q)
      fun _ q => p₀.Forfeits q :=
    .change (fun hu => hu) (.change_last (fun hu => hu) (hp.calm (.of_eq rfl rfl rfl)))
  have hcall : ∀ q, p₀.Claims id q → Spec quietRun (callHook nested .acquired) q (fun _ _ => True)
      fun _ r => p₀.Forfeits r := by
    refine fun q hq => (spec_callHook_quiet nested .acquired q).mono (fun _ _ _ => trivial) ?_
    rintro _ _ ⟨r, hr, rfl⟩
    exact (hq.calm hr).forfeit
  exact hcount.bind fun _ q hq => (hcall q hq).bind fun _ r _ => .update_last (fun hu => hu) trivial

/-- How an acquisition ends: without a lease the slots in use are as before, unless a panic of the
callback for acquisitions has forfeited one. -/
def EndsWell (p₀ : Pool) (m : PoolM (Except PoolError Lease)) (p : Pool) : Prop :=
  Spec quietRun m p (fun ending q => match ending with
      | .ok _ => True
      | .error _ => p₀.Keeps q)
    fun _ q => p₀.Keeps q ∨ p₀.Forfeits q

/-- An action that gives back what it has claimed when it panics, before an acquisition goes on. -/
theorem EndsWell.bind {f : α → PoolM (Except PoolError Lease)} {done : α → Pool → Prop}
    (hm : Spec quietRun m p done fun _ q => p₀.Keeps q)
    (hf : ∀ value q, done value q → EndsWell p₀ (f value) q) : EndsWell p₀ (m >>= f) p :=
  Spec.bind (hm.mono (fun _ _ h => h) fun _ _ => .inl) hf

/-- A hand-out gives a lease, or forfeits the slot by a panic of the callback. -/
theorem EndsWell.handOut (hp : p₀.Claims id p) :
    EndsWell p₀ (do
      let lease ← PoolM.handOut nested id resource
      pure (.ok lease)) p :=
  Spec.bind ((quiet_handOut hp).mono (fun _ _ h => h) fun _ _ => .inr) fun _ _ _ => .pure trivial

/-- A refusal keeps the slots in use. -/
theorem EndsWell.refuse (hp : p₀.Keeps p) :
    EndsWell p₀ (do
      let error ← PoolM.refuse nested
      pure (.error error)) p :=
  .bind ((mild_refuse nested).keeps hp) fun _ _ hq => .pure hq

/-- However many rounds an acquisition takes, it ends well. A round that finds no resource has given
back all that it claimed, so the next one starts as it did. -/
theorem endsWell_acquireRounds (nested : Op → PoolM Reply) (rounds rejected : Nat)
    (hp : p₀.Keeps p) : EndsWell p₀ (acquireRounds nested rounds rejected) p := by
  induction rounds generalizing p rejected with
  | zero => exact .exceed
  | succ rounds ih =>
    refine .bind (quiet_claim hp) fun slot q hq => ?_
    cases slot with
    | some slot =>
      refine .bind (quiet_passes hq) fun healthy r hr => ?_
      cases healthy with
      | true => exact .handOut hr
      | false =>
        refine .bind ((mild_letGo nested _).keeps hr) fun _ t ht => ih rejected ht
    | none =>
      refine .bind ((mild_reserve .acquire 1).keeps hq) fun granted r hr => ?_
      by_cases hg : granted = 1
      · rw [if_pos hg]
        refine .bind (quiet_createResource hr) fun result t ht => ?_
        match result with
        | .ok none => exact .pure ht
        | .error _ => exact .refuse ht
        | .ok (some slot) =>
          refine .bind (quiet_passes ht) fun healthy u hu => ?_
          cases healthy with
          | true => exact .handOut hu
          | false =>
            apply Spec.read
            have hletGo := mild_letGo nested (.reference slot.2)
            split
            · exact EndsWell.bind ((mild_refuse nested).keeps hu) fun error v hv =>
                EndsWell.bind (hletGo.keeps hv) fun _ w hw => .pure hw
            · exact EndsWell.bind (hletGo.keeps hu) fun _ v hv => ih (rejected + 1) hv
      · rw [if_neg hg]
        exact .refuse hr

/-- An acquisition with quiet user code ends as claimed, however many rounds it has. -/
theorem endsWell_acquire (nested : Op → PoolM Reply) (rounds : Nat) (hp : p₀.Keeps p) :
    EndsWell p₀ (acquire nested rounds) p := by
  apply Spec.read
  cases p.closed with
  | true => exact .pure hp
  | false => exact endsWell_acquireRounds nested rounds 0 hp

/-- What is left of an acquisition whose panic is caught. -/
theorem quiet_attempt_acquire (nested : Op → PoolM Reply) (rounds : Nat) (hp : p₀.Keeps p) :
    Spec quietRun (attempt nested (acquire nested rounds)) p (fun ending q => match ending with
        | .ok (.ok _) => True
        | .ok (.error _) => p₀.Keeps q
        | .error _ => p₀.Keeps q ∨ p₀.Forfeits q)
      fun _ _ => False := by
  have hunwind (q : Pool) (hq : p₀.Keeps q ∨ p₀.Forfeits q) :
      Spec quietRun (unwind nested (q.holdings.length - p.holdings.length)) q
        (fun _ r => p₀.Keeps r ∨ p₀.Forfeits r) fun _ _ => False := by
    refine .given fun hu =>
      .of_done (unwind_apply hu.destructor_eq_nil _) (Pool.quietRun_unwindTo q _) ?_
    exact hq.imp (·.calm (.unwindTo q _)) (·.unwindTo _)
  refine (Spec.attempt (fun _ q => p₀.Keeps q ∨ p₀.Forfeits q)
    (endsWell_acquire nested rounds hp) fun _ => hunwind).weaken fun ending q hq => ?_
  rcases ending with _ | (_ | _) <;> exact hq

end PoolM

namespace Pool

variable {p₀ p q : Pool}

/-- The slots in use of a pool were in use in another one, with the same resources. -/
def UsesOnly (p q : Pool) : Prop :=
  ∀ s ∈ q.table.slots, s.state = .inUse →
    ∃ s' ∈ p.table.slots, s'.id = s.id ∧ s'.resource = s.resource ∧ s'.state = .inUse

/-- The callback for acquisitions has panicked since an earlier moment. -/
def MarkedSince (p q : Pool) : Prop :=
  ∃ r ∈ q.recordsSince p, r.entry = .hookPanicked .acquired

instance (p q : Pool) : Decidable (p.MarkedSince q) :=
  inferInstanceAs (Decidable (∃ r ∈ q.recordsSince p, r.entry = .hookPanicked .acquired))

/-- Slots in use that were kept were in use. -/
theorem Keeps.usesOnly (h : p.Keeps q) : p.UsesOnly q := by
  intro s hs hstate
  obtain ⟨hs', -⟩ := Table.mem_held.1 (h.table.held.mem_iff.1 (Table.mem_held.2 ⟨hs, hstate⟩))
  exact ⟨s, hs', rfl, rfl, hstate⟩

/-- Where nothing was forfeited the callback has not panicked. -/
theorem Keeps.not_markedSince (h : p.Keeps q) : ¬p.MarkedSince q := by
  obtain ⟨new, hnew, hall⟩ := h.unmarked
  rintro ⟨r, hr, he⟩
  rw [recordsSince_eq hnew, List.mem_reverse] at hr
  exact hall r hr he

/-- A slot is forfeited by a panic of the callback. -/
theorem Forfeits.markedSince (h : p.Forfeits q) : p.MarkedSince q := by
  obtain ⟨new, hnew, r, hr, he⟩ := h.marked
  refine ⟨r, ?_, he⟩
  rw [recordsSince_eq hnew, List.mem_reverse]
  exact hr

/-- A forfeited slot was not in use before. -/
theorem Forfeits.not_usesOnly (h : p.Forfeits q) : ¬p.UsesOnly q := by
  obtain ⟨id, hgains⟩ := h.table
  obtain ⟨s, hs, hid⟩ := hgains.gained
  obtain ⟨hmem, hstate⟩ := Table.mem_held.1 hs
  intro hall
  obtain ⟨s', hs', hsame, -, hstate'⟩ := hall s hmem hstate
  exact hgains.ne (Table.mem_held.2 ⟨hs', hstate'⟩) (hsame.trans hid)

/-- An acquisition that gives no lease has kept the slots in use, or has forfeited one. -/
theorem keeps_or_forfeits (hp : p.Occurs) (hquiet : p.user.IsQuiet) {nested : Op → PoolM Reply}
    {rounds : Nat} {ending : Except Panic (Except PoolError Lease)}
    (h : PoolM.attempt nested (PoolM.acquire nested rounds) p = (.done ending, q))
    (hend : ∀ lease, ending ≠ .ok (.ok lease)) : p.Keeps q ∨ p.Forfeits q := by
  have hrun := (PoolM.quiet_attempt_acquire nested rounds (.refl hp.fits.sound) hquiet).2
  rw [h] at hrun
  match ending, hend, hrun with
  | .ok (.ok lease), hend, _ => exact absurd rfl (hend lease)
  | .ok (.error _), _, hrun => exact .inl hrun
  | .error _, _, hrun => exact hrun

/-- An acquisition leaves the reservations as they were, however it ends. -/
theorem creating_acquire (hp : p.Occurs) {budget rounds : Nat}
    {ending : Except Panic (Except PoolError Lease)}
    (h : PoolM.attempt (PoolM.run budget) (PoolM.acquire (PoolM.run budget) rounds) p =
      (.done ending, q)) :
    q.table.creating = p.table.creating := by
  obtain ⟨hsteps, hholdings⟩ :=
    (((PoolM.nests_run (d := publicRun) budget).acquire rounds p).catch (PoolM.nests_run budget))
      hp.arises.isTame
  rw [h] at hsteps hholdings
  have hfits : q.Fits := hsteps.invariant (fun _ _ => Fits.step) hp.fits
  rw [hfits.creating, hp.fits.creating, reservations, reservations]
  rcases ending with _ | (_ | lease)
  · rw [hholdings]
  · rw [hholdings.holdings, PoolM.handed]
  · rw [hholdings.holdings, PoolM.handed, List.count_cons_of_ne (by simp)]

/-- An acquisition that gives no lease, because it is refused or because user code panics, leaves
the reservations as they were. It leaves no slot in use that was not in use with the same resource
before, if and only if the callback for acquisitions has not panicked. If it has panicked, one slot
more is in use. -/
theorem Occurs.failed_acquire (hp : p.Occurs) (hquiet : p.user.IsQuiet) {budget rounds : Nat}
    {ending : Except Panic (Except PoolError Lease)}
    (h : PoolM.attempt (PoolM.run budget) (PoolM.acquire (PoolM.run budget) rounds) p =
      (.done ending, q))
    (hend : ∀ lease, ending ≠ .ok (.ok lease)) :
    q.table.creating = p.table.creating ∧
    (p.UsesOnly q ↔ ¬p.MarkedSince q) ∧
    (p.MarkedSince q → q.table.count .inUse = p.table.count .inUse + 1) := by
  refine ⟨creating_acquire hp h, ?_⟩
  rcases keeps_or_forfeits hp hquiet h hend with hkeeps | hforfeits
  · exact ⟨iff_of_true hkeeps.usesOnly hkeeps.not_markedSince,
      fun hmarked => absurd hmarked hkeeps.not_markedSince⟩
  · obtain ⟨id, hgains⟩ := hforfeits.table
    exact ⟨iff_of_false hforfeits.not_usesOnly (not_not_intro hforfeits.markedSince),
      fun _ => hgains.count⟩

/-- The callback panics on the first acquisition, and the slot stays in use. -/
theorem failed_acquire_hook_panics :
    let routine : HookRoutine := ⟨fun _ => ⟨[], { panic := some (.ofText "boom") }⟩, 0⟩
    let p := new "pool" {} { UserCode.plain with hook := { acquired := some routine } }
    let q := (PoolM.attempt (PoolM.run 1) (PoolM.acquire (PoolM.run 1) 1) p).2
    p.table.count .inUse = 0 ∧ q.table.count .inUse = 1 ∧ ¬p.UsesOnly q := by
  intro routine p q
  have huser : ∀ P : Op → Prop, p.user.Runs P := fun P =>
    { UserCode.plain_runs P with
      hook := fun call routine' hr => by
        cases call <;> cases hr
        exact fun _ _ _ hop => absurd hop List.not_mem_nil }
  have hstart : p.Occurs := (reachable_new "pool" {} (huser _) (by decide)).occurs
  have hrun : PoolM.attempt (PoolM.run 1) (PoolM.acquire (PoolM.run 1) 1) p =
      (.done (.error (.ofText "boom")), q) := rfl
  obtain ⟨-, hiff, hcount⟩ := hstart.failed_acquire (huser _) hrun nofun
  have hmarked : p.MarkedSince q := by decide
  exact ⟨rfl, hcount hmarked, fun hall => hiff.1 hall hmarked⟩

end Pool

end LeasePool
