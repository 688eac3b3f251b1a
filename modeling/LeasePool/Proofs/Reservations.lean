import LeasePool.Proofs.Capacity

/-!
# Reservations of callers

A caller can take reservations for itself, from outside of all operations. It gives each of them
back, or creates a resource with it. A run in which callers do so consists of the same steps as any
other, of what happens to the callers' reservations, and of the loss of slots that a caller has
created in use: nobody has a lease of these.
-/

namespace LeasePool

namespace Pool

variable {p q : Pool}

/-- A step, or a change that has to do with the reservations of callers. -/
inductive CallerStep (p : Pool) : Pool → Prop
  | step {q : Pool} (h : p.Step q) : p.CallerStep q
  /-- The factory is called for a caller, on behalf of any part of the pool. -/
  | factory (origin : Origin) : p.CallerStep (p.note (.factory origin))
  | take (wanted : Nat) : p.CallerStep { p with
      table := (p.table.reserve wanted p.config.maxCount).2
      reserved := p.reserved + (p.table.reserve wanted p.config.maxCount).1 }
  | giveBack (h : 0 < p.reserved) :
      p.CallerStep { p.onTable (·.unreserve) with reserved := p.reserved - 1 }
  /-- A running operation takes over a reservation. -/
  | handOver (h : 0 < p.reserved) :
      p.CallerStep ({ p with reserved := p.reserved - 1 }.hold .reservation)
  /-- A claimed slot is left in use without an owner. -/
  | abandon (id resource : Nat) (h : .slot .claim id resource ∈ p.holdings) :
      p.CallerStep ((p.unhold (.slot .claim id resource)).discard resource)

/-- A change with the reservations of callers adds at most the start of a factory call to the
history. -/
theorem CallerStep.history (h : p.CallerStep q) :
    ∃ after before, q.history = after ++ (before ++ p.history) ∧
      (∀ r ∈ after, r.seen = q.sight) ∧ ∀ r ∈ before, r.seen = p.sight := by
  have hsame : q.history = p.history →
      ∃ after before, q.history = after ++ (before ++ p.history) ∧
        (∀ r ∈ after, r.seen = q.sight) ∧ ∀ r ∈ before, r.seen = p.sight :=
    fun he => ⟨[], [], he, fun _ hr => absurd hr List.not_mem_nil,
      fun _ hr => absurd hr List.not_mem_nil⟩
  cases h with
  | step h => exact h.history
  | factory =>
    exact ⟨[_], [], rfl, List.forall_mem_singleton.2 rfl, fun _ hr => absurd hr List.not_mem_nil⟩
  | take | giveBack | handOver => exact hsame rfl
  | abandon =>
    refine hsame ?_
    rw [discard_eq]
    rfl

/-- What callers do forgets no record. -/
theorem CallerStep.history_suffix (h : p.CallerStep q) : p.history <:+ q.history := by
  obtain ⟨after, before, he, -, -⟩ := h.history
  exact ⟨after ++ before, by rw [he, List.append_assoc]⟩

theorem CallerStep.destroyed_subset (h : p.CallerStep q) : p.destroyed ⊆ q.destroyed := by
  cases h with
  | step h => exact fun r => h.destroyed_subset r
  | abandon id resource =>
    rw [destroyed_discard]
    exact fun r => destroyed_settle_subset (p.unhold (.slot .claim id resource)) resource r
  | _ => exact List.Subset.refl _

/-- What callers do keeps a pool tame. -/
theorem CallerStep.isTame (h : p.CallerStep q) (hp : p.IsTame) : q.IsTame := by
  cases h with
  | step h => exact h.isTame hp
  | factory => exact hp.of_eq rfl (fun _ => id) fun _ hr => List.mem_cons_of_mem _ hr
  | take | giveBack | handOver => exact hp.of_eq rfl (fun _ => id) fun _ => id
  | abandon id resource =>
    refine hp.of_eq ?_ (brittle_discard_subset (p.unhold _) resource) fun r hr => ?_
    · rw [discard_eq]
      rfl
    · rw [discard_eq]
      exact hr

/-- Runs in which callers hold reservations. -/
def callerRun : Discipline where
  valid := IsTame
  moves := Relation.ReflTransGen CallerStep
  refl _ := .refl
  trans := .trans
  keep hp hs := by
    induction hs with
    | refl => exact hp
    | tail _ h ih => exact h.isTame ih

instance : Admits callerRun :=
  .of_step id (history_suffix_of_changes CallerStep.history_suffix)
    (destroyed_subset_of_changes CallerStep.destroyed_subset) fun _ h => .single (.step h)

/-- What a caller does with reservations: it takes some, it gives one of its own back, or it creates
a resource with one. -/
inductive UsesReservation (p : Pool) : Op → Prop
  | take (wanted : Nat) : p.UsesReservation (.reserve wanted)
  | giveBack (h : 0 < p.reserved) : p.UsesReservation .dropReservation
  | create {state : SlotState} (origin : Origin) (hs : state = .idle ∨ state = .inUse)
      (h : 0 < p.reserved) : p.UsesReservation (.create state origin)

end Pool

namespace PoolM

open Pool (callerRun)

variable {nested : Op → PoolM Reply} {p : Pool} {H : List Holding} {op : Op}

/-- Nobody owns a slot that was created in use for a caller. -/
theorem Nests.abandon (hn : Nests callerRun nested) {id resource : Nat}
    (hp : p.holdings = .slot .claim id resource :: H) :
    Spec callerRun (PoolM.letGo nested (.slot .claim id resource)) p (fun _ q => q.holdings = H)
      fun _ q => q.Strewn H := by
  have hh : (p.unhold (.slot .claim id resource)).holdings = H := by
    simp only [Pool.unhold, hp, List.erase_cons_head]
  have hlost : callerRun.moves p ((p.unhold (.slot .claim id resource)).discard resource) :=
    .single (.abandon id resource (by simp [hp]))
  refine .given fun hv => .jump (letGo_apply rfl nested p) (fun _ => hlost) ?_
  have hpart := hn.part (p := p.unhold (.slot .claim id resource)) hv.user resource
  exact hpart.mono (fun _ _ hq => hq.1.trans hh) fun _ _ hq => .of_eq (hq.1.1.trans hh)

/-- A creation for a caller uses up one of its reservations. -/
theorem Nests.createReserved (hn : Nests callerRun nested) {state : SlotState} (origin : Origin)
    (hs : state = .idle ∨ state = .inUse) (hr : 0 < p.reserved) :
    Spec callerRun (createReserved nested state origin) p (fun _ q => q.holdings = p.holdings)
      fun _ q => q.Strewn p.holdings := by
  refine .change (.single (.handOver hr)) ?_
  have hf : ∀ q : Pool, callerRun.moves q (q.note (.factory origin)) :=
    fun _ => .single (.factory origin)
  refine (hn.createResource (fun _ => hf _) hs rfl).bind fun result q hq => ?_
  match result, hq with
  | .ok (some (id, resource)), hq =>
    rcases hs with rfl | rfl
    · exact .pure hq
    · exact (hn.abandon hq).bind fun _ r hr => .pure hr
  | .ok none, hq => exact .pure hq
  | .error _, hq => exact .pure hq

/-- What a caller does with reservations leaves the stack as it found it. -/
theorem Nests.performReserved (hn : Nests callerRun nested) (rounds : Nat)
    (hop : p.UsesReservation op) :
    Spec callerRun (PoolM.perform nested rounds op) p (fun _ q => q.holdings = p.holdings)
      fun _ q => q.Strewn p.holdings := by
  cases hop with
  | take wanted => exact .update_last (.single (.take wanted)) rfl
  | giveBack h => exact .change (.single (.giveBack h)) (.pure rfl)
  | create origin hs h => exact hn.createReserved origin hs h

end PoolM

namespace Pool

variable {p q : Pool} {op : Op}

/-- An operation of a run in which callers hold reservations. -/
def Permits (p : Pool) (op : Op) : Prop := op.IsPublic ∨ p.UsesReservation op

/-- A pool between the operations of a run in which callers hold reservations. -/
inductive ReachableReserving : Pool → Prop
  | create {p : Pool} (h : p.IsNew) : ReachableReserving p
  | run {p q : Pool} {op : Op} {budget : Nat} {reply : Reply} (hp : ReachableReserving p)
      (hop : p.Permits op) (h : PoolM.run budget op p = (.done reply, q)) : ReachableReserving q

/-- The pool that an operation leaves when it answers. -/
theorem ReachableReserving.next (hp : p.ReachableReserving) (hop : p.Permits op) {budget : Nat}
    (h : (PoolM.run budget op p).1.isDone = true) :
    (PoolM.run budget op p).2.ReachableReserving := by
  obtain ⟨reply, hrun⟩ := PoolM.eq_done_of_isDone h
  exact .run hp hop hrun

/-- A pool in such a run whose last operation may have been cut short by its budget. -/
inductive OccursReserving : Pool → Prop
  | intro {p : Pool} {op : Op} (hp : p.ReachableReserving) (hop : p.Permits op) (budget : Nat) :
      OccursReserving (PoolM.run budget op p).2

/-- Every operation of such a run leaves the stack as it found it, and ends without a panic. -/
theorem Permits.spec_run (hop : p.Permits op) (budget : Nat) :
    PoolM.Spec callerRun (PoolM.run budget op) p (fun _ q => q.holdings = p.holdings)
      fun _ _ => False := by
  rcases hop with hop | hop
  · exact PoolM.contained_run budget hop p
  · cases budget with
    | zero => exact .exceed
    | succ budget =>
      have hinside : { p.note (.began op) with depth := p.depth + 1 }.UsesReservation op := by
        cases hop with
        | take wanted => exact .take wanted
        | giveBack h => exact .giveBack h
        | create origin hs h => exact .create origin hs h
      have hn := PoolM.nests_run (d := callerRun) budget
      exact hn.answering (hn.performReserved budget hinside)
        fun _ _ => PoolM.completes_of_attempt budget

/-- Between operations the pool is tame, and nothing is held but reservations of callers. -/
theorem ReachableReserving.idle (h : p.ReachableReserving) : p.IsTame ∧ p.holdings = [] := by
  induction h with
  | create h =>
    have htame := h.isTame
    obtain ⟨⟩ := h
    exact ⟨htame, rfl⟩
  | @run p q op budget reply _ hop h ih =>
    obtain ⟨htame, hnil⟩ := ih
    obtain ⟨hmoves, hends⟩ := hop.spec_run budget htame
    rw [h] at hmoves hends
    exact ⟨callerRun.keep htame hmoves, hends.trans hnil⟩

/-- A run in which callers hold reservations consists of changes from the creation of its pool. -/
theorem ReachableReserving.exists_start (h : p.ReachableReserving) :
    ∃ start, IsNew start ∧ Relation.ReflTransGen CallerStep start p := by
  induction h with
  | create h => exact ⟨_, h, .refl⟩
  | @run p q op budget reply hp hop h ih =>
    obtain ⟨start, hstart, hchanges⟩ := ih
    have hmoves := (hop.spec_run budget hp.idle.1).1
    rw [h] at hmoves
    exact ⟨start, hstart, hchanges.trans hmoves⟩

/-- A run starts from a new pool. -/
theorem OccursReserving.exists_start (h : q.OccursReserving) :
    ∃ start, IsNew start ∧ Relation.ReflTransGen CallerStep start q := by
  obtain ⟨hp, hop, budget⟩ := h
  obtain ⟨start, hstart, hchanges⟩ := hp.exists_start
  exact ⟨start, hstart, hchanges.trans (hop.spec_run budget hp.idle.1).1⟩

/-- What is true of all that can be seen at every change is true of all that can be seen in a run in
which callers hold reservations. -/
theorem OccursReserving.forall_seen {I : Pool → Prop} {S : Sight → Prop} (hnew : ∀ p, IsNew p → I p)
    (hchange : ∀ p q, I p → CallerStep p q → I q) (hs : ∀ p, I p → S p.sight)
    (h : q.OccursReserving) : ∀ s ∈ q.sight :: q.history.map (·.seen), S s := by
  obtain ⟨start, hstart, hchanges⟩ := h.exists_start
  exact hstart.forall_seen CallerStep.history hchange hs (hnew _ hstart) hchanges

/-- In a new pool callers hold no reservations. -/
theorem IsNew.fits (hp : p.IsNew) : p.Fits p.reserved := by
  have hfits : p.Fits 0 := .of_isNew hp
  obtain ⟨⟩ := hp
  exact hfits

/-- The reservations of callers are counted in the table, along with those of running operations. -/
theorem CallerStep.fits (hp : p.Fits p.reserved) (h : p.CallerStep q) : q.Fits q.reserved := by
  cases h with
  | step h => exact h.reserved ▸ hp.step h
  | factory => exact hp.of_eq rfl rfl rfl
  | take wanted => exact hp.grant rfl rfl (Nat.add_assoc ..).symm
  | giveBack h =>
    refine hp.giveBack rfl rfl ?_
    change p.reservations + (p.reserved - 1) + 1 = _
    omega
  | handOver h =>
    refine ⟨hp.sound, ?_, hp.overdrawn, hp.bounded, hp.word⟩
    have hcreating := hp.creating
    have hheld : ({ p with reserved := p.reserved - 1 }.hold .reservation).reservations =
        p.reservations + 1 := List.count_cons_self
    rw [hheld]
    change p.table.creating = _ + (p.reserved - 1)
    omega
  | abandon id resource h =>
    rw [discard_eq]
    exact hp.of_eq rfl rfl (reservations_unhold (by simp))

end Pool

end LeasePool
