import LeasePool.Proofs.Stack.Run

/-!
# Runs and their histories

A run creates a pool and then asks it for one public operation after another. The history shows the
pool at all moments of the run at which user code or a caller can look at it. What is true of a pool
at every step is therefore true of all that its history shows. A move brings the pool from one such
moment to a next one, and keeps together what no user code can come between.
-/

namespace LeasePool

/-- Whether an action has ended with a value. -/
def Outcome.isDone {α : Type} : Outcome α → Bool
  | .done _ => true
  | _ => false

/-- How an action ends and where it leaves the pool, together. -/
theorem PoolM.eq_done_of_fst {α : Type} {m : PoolM α} {p : Pool} {value : α}
    (h : (m p).1 = .done value) : m p = (.done value, (m p).2) :=
  Prod.ext h rfl

/-- An action that is done has ended with some value. -/
theorem PoolM.eq_done_of_isDone {α : Type} {m : PoolM α} {p : Pool}
    (h : (m p).1.isDone = true) : ∃ value, m p = (.done value, (m p).2) := by
  cases hm : (m p).1 with
  | done value => exact ⟨value, eq_done_of_fst hm⟩
  | panicked | exceeded =>
    rw [hm] at h
    cases h

namespace Pool

variable {p q : Pool}

/-- A pool at its creation. Its user code runs public operations only, and its maximum is a word. -/
inductive IsNew : Pool → Prop
  | intro (name : String) (config : Config) (user : UserCode) (delegates : Bool) (clock : Clock)
      (hu : user.IsPublic) (hw : config.maxCount ≤ countLimit) :
      IsNew { new name config user with delegates, clock }

/-- A pool between the operations of a run. -/
inductive Reachable : Pool → Prop
  | create {p : Pool} (h : p.IsNew) : Reachable p
  | run {p q : Pool} {op : Op} {budget : Nat} {reply : Reply} (hp : Reachable p)
      (hop : op.IsPublic) (h : PoolM.run budget op p = (.done reply, q)) : Reachable q

/-- A pool in a run whose last operation may have been cut short by its budget. -/
inductive Occurs : Pool → Prop
  | intro {p : Pool} {op : Op} (hp : p.Reachable) (hop : op.IsPublic) (budget : Nat) :
      Occurs (PoolM.run budget op p).2

/-- A pool at any moment of a run, also inside of operations. -/
def Arises (q : Pool) : Prop := ∃ start, IsNew start ∧ start.Steps q

/-- What an operation does until user code or a caller can look at the pool again: one step that
finds nothing out, or the end of a check together with what follows from it. -/
inductive Move (p q : Pool) : Prop
  | step (h : p.Step q) (hf : q.findings = p.findings)
  | weed (h : p.Weeds q)
  | reject (h : p.Rejects q)
  | pass (h : p.Passes q)
  | approve (h : p.Approves q)

/-- A sequence of moves. -/
abbrev Moves : Pool → Pool → Prop := Relation.ReflTransGen Move

/-- A pool at any moment of a run at which user code or a caller can look at it. -/
def Surfaces (q : Pool) : Prop := ∃ start, IsNew start ∧ start.Moves q

/-- A new pool with public user code is where runs start. -/
theorem reachable_new (name : String) (config : Config) {user : UserCode} (hu : user.IsPublic)
    (hw : config.maxCount ≤ countLimit) : (new name config user).Reachable :=
  .create (.intro name config user false {} hu hw)

/-- The pool that an operation leaves when it answers. -/
theorem Reachable.next (hp : p.Reachable) {op : Op} (hop : op.IsPublic) {budget : Nat}
    (h : (PoolM.run budget op p).1.isDone = true) : (PoolM.run budget op p).2.Reachable := by
  obtain ⟨reply, hrun⟩ := PoolM.eq_done_of_isDone h
  exact .run hp hop hrun

/-- A new pool is tame. -/
theorem IsNew.isTame (h : p.IsNew) : p.IsTame := by
  obtain ⟨name, config, user, delegates, clock, hu, -⟩ := h
  exact ⟨hu, fun _ hr => absurd hr List.not_mem_nil⟩

/-- What every step preserves is preserved by many. -/
theorem Steps.invariant {I : Pool → Prop} (hstep : ∀ p q, I p → Step p q → I q) (h : p.Steps q)
    (hp : I p) : I q := by
  induction h with
  | refl => exact hp
  | tail _ h ih => exact hstep _ _ ih h

/-- What a new pool has and every step preserves holds at any moment of a run. -/
theorem Arises.invariant {I : Pool → Prop} (hnew : ∀ p, IsNew p → I p)
    (hstep : ∀ p q, I p → Step p q → I q) (h : q.Arises) : I q := by
  obtain ⟨start, hstart, hsteps⟩ := h
  exact hsteps.invariant hstep (hnew start hstart)

/-- Steps lead from moments of a run to moments of it. -/
theorem Arises.steps (h : p.Arises) (hs : p.Steps q) : q.Arises := by
  obtain ⟨start, hstart, hsteps⟩ := h
  exact ⟨start, hstart, hsteps.trans hs⟩

/-- Throughout a run user code runs public operations only, and destructors panic only if they were
made to. -/
theorem Arises.isTame (h : q.Arises) : q.IsTame :=
  h.invariant (fun _ => IsNew.isTame) fun _ _ hp hs => hs.isTame hp

/-- Between operations the pool is tame, and nothing is held. -/
theorem Reachable.idle (h : p.Reachable) : p.IsTame ∧ p.holdings = [] := by
  induction h with
  | create h =>
    have htame := h.isTame
    obtain ⟨⟩ := h
    exact ⟨htame, rfl⟩
  | @run p q op budget reply _ hop h ih =>
    obtain ⟨htame, hnil⟩ := ih
    have hsteps : p.Steps q := by
      have := steps_run budget hop htame
      rwa [h] at this
    exact ⟨publicRun.keep htame hsteps, (holdings_run hop htame h).trans hnil⟩

/-- A move is a sequence of steps. -/
theorem Move.steps (h : p.Move q) : p.Steps q := by
  cases h with
  | step h => exact .single h
  | weed h => exact steps_of_jobSteps h.steps
  | reject h => exact h.steps
  | pass h => exact steps_of_jobSteps h.steps
  | approve h => exact h.steps

/-- A sequence of moves is a sequence of steps. -/
theorem Moves.steps (h : p.Moves q) : p.Steps q := by
  induction h with
  | refl => exact .refl
  | tail _ h ih => exact ih.trans h.steps

/-- Runs that are told by moves. -/
def movingRun : Discipline where
  valid := IsTame
  moves := Moves
  refl _ := .refl
  trans := .trans
  keep hp h := publicRun.keep hp h.steps

instance : Admits movingRun where
  tame hp := hp
  grows h := h.steps.history_suffix
  perishes h := h.steps.destroyed_subset
  step _ h := .single (.step h.job.step h.findings)
  weed _ h := .single (.weed h)
  pass _ h := .single (.pass h)
  allow _ h hf := .single (.step h hf)
  reject _ h := .single (.reject h)
  approve _ h := .single (.approve h)

/-- A run of a public operation is a sequence of moves, even if its budget runs out. -/
theorem moves_run {op : Op} (budget : Nat) (hop : op.IsPublic) (hp : p.IsTame) :
    p.Moves (PoolM.run budget op p).2 :=
  (PoolM.contained_run (d := movingRun) budget hop p hp).1

/-- A pool that can be looked at is at some moment of a run. -/
theorem Surfaces.arises (h : q.Surfaces) : q.Arises := by
  obtain ⟨start, hstart, hmoves⟩ := h
  exact ⟨start, hstart, hmoves.steps⟩

/-- Moves lead from where a pool can be looked at to where it can be. -/
theorem Surfaces.moves (h : p.Surfaces) (hq : p.Moves q) : q.Surfaces := by
  obtain ⟨start, hstart, hmoves⟩ := h
  exact ⟨start, hstart, hmoves.trans hq⟩

/-- Between operations a pool can be looked at. -/
theorem Reachable.surfaces (h : p.Reachable) : p.Surfaces := by
  induction h with
  | create h => exact ⟨_, h, .refl⟩
  | @run p q op budget reply hp hop h ih =>
    have hrun := moves_run budget hop hp.idle.1
    rw [h] at hrun
    exact ih.moves hrun

/-- What occurs in a run surfaces, also where a callback is about to run another operation. -/
theorem Occurs.surfaces (h : q.Occurs) : q.Surfaces := by
  obtain ⟨hp, hop, budget⟩ := h
  exact hp.surfaces.moves (moves_run budget hop hp.idle.1)

/-- What a new pool has and every move preserves holds of all that surfaces in a run. -/
theorem Surfaces.invariant {I : Pool → Prop} (hnew : ∀ p, IsNew p → I p)
    (hmove : ∀ p q, I p → Move p q → I q) (h : q.Surfaces) : I q := by
  obtain ⟨start, hstart, hmoves⟩ := h
  induction hmoves with
  | refl => exact hnew start hstart
  | tail _ h ih => exact hmove _ _ ih h

/-- A run is a sequence of steps from the creation of its pool. -/
theorem Reachable.arises (h : p.Reachable) : p.Arises := h.surfaces.arises

/-- The end of an operation is a moment of its run. -/
theorem Occurs.arises (h : q.Occurs) : q.Arises := h.surfaces.arises

/-- A pool between operations occurs in a run. -/
theorem Reachable.occurs (h : p.Reachable) : p.Occurs := by
  have hop : Op.IsPublic .status := .of_installs_eq_nil rfl rfl
  exact .intro h hop 0

/-- What a new pool has and every step preserves holds throughout a run. -/
theorem Occurs.invariant {I : Pool → Prop} (hnew : ∀ p, IsNew p → I p)
    (hstep : ∀ p q, I p → Step p q → I q) (h : q.Occurs) : I q :=
  h.arises.invariant hnew hstep

/-- No step of a run changes the configuration. -/
theorem Steps.config (h : p.Steps q) : q.config = p.config := by
  induction h with
  | refl => rfl
  | tail _ h ih => exact h.config.trans ih

/-- No step of a run changes how checks run. -/
theorem Steps.checkStyle (h : p.Steps q) : q.user.checkStyle = p.user.checkStyle := by
  induction h with
  | refl => rfl
  | tail _ h ih => exact h.checkStyle.trans ih

/-- No step changes what destructors run. -/
theorem Steps.destructor (h : p.Steps q) : q.user.destructor = p.user.destructor := by
  induction h with
  | refl => rfl
  | tail _ h ih => exact h.destructor.trans ih

/-- What an entry tells about the pool that writes it: a slot is created in an open pool only, and
is in the table then, a slot that is destroyed has left the table and has failed a check if it is
unhealthy, an operation that ends has done its work, what is checked or handed out is held, checks
are made only if there are any, a job that was told to stop calls neither the factory nor the check,
and the lease of a slot that is given back has ended. -/
def Justifies (p : Pool) (r : Record) : Prop :=
  match r.entry with
  | .event (.resourceCreated slot _) =>
    r.seen.closed = false ∧ ∃ s ∈ r.seen.table.slots, s.id = slot
  | .event (.resourceDestroyed slot reason) =>
    (∃ s, s.id = slot ∧ .removed reason s ∈ p.holdings) ∧ (reason = .unhealthy → p.HasFailed slot)
  | .ended op _ => r.seen.Completes op
  | .factory origin => r.seen = p.sight ∧ p.MayCreate origin
  | .check resource checker =>
    r.seen = p.sight ∧ p.Backs resource checker ∧ p.user.checkStyle ≠ none ∧
      (checker = .care → p.careStops = false)
  | .handedOut slot resource => .slot .handOver slot resource ∈ p.holdings
  | .freeing slot resource => r.seen = p.sight ∧ .slot .release slot resource ∈ p.holdings
  | _ => True

/-- A remark needs no justification. -/
theorem justifies_remark {e : Entry} (he : e.IsRemark) {time : Instant} {depth : Nat}
    {traced : Bool} {seen : Sight} : p.Justifies ⟨time, depth, traced, seen, e⟩ := by
  cases e with
  | event e =>
    cases e with
    | resourceCreated | resourceDestroyed => exact he.elim
    | _ => trivial
  | ended | reserved | factory | check | handedOut | freeing => exact he.elim
  | _ => trivial

/-- The pool justifies what a step adds to its history. -/
theorem Step.justified (h : p.Step q) :
    ∃ new, q.history = new ++ p.history ∧ ∀ r ∈ new, p.Justifies r := by
  have hnone : ∀ r ∈ ([] : List Record), p.Justifies r := fun _ hr => absurd hr List.not_mem_nil
  cases h with
  | remark e he => exact ⟨[_], rfl, List.forall_mem_singleton.2 (justifies_remark he)⟩
  | ended op reply h => exact ⟨[_], rfl, List.forall_mem_singleton.2 h⟩
  | factory origin h => exact ⟨[_], rfl, List.forall_mem_singleton.2 ⟨rfl, h⟩⟩
  | check resource checker h hs hc =>
    exact ⟨[_], rfl, List.forall_mem_singleton.2 ⟨rfl, h, hs, hc⟩⟩
  | commit resource state origin _ hc =>
    refine ⟨[_], rfl, List.forall_mem_singleton.2 ⟨hc, ?_⟩⟩
    exact ⟨_, List.mem_append_right _ (List.mem_singleton_self _), rfl⟩
  | beginLease id resource h => exact ⟨[_], rfl, List.forall_mem_singleton.2 h⟩
  | giveBack lease h =>
    exact ⟨[_, _], rfl, List.forall_mem_cons.2 ⟨trivial, List.forall_mem_singleton.2 ⟨rfl, h⟩⟩⟩
  | reserve | conclude | confirm | reinstate | unpark | giveUp =>
    exact ⟨[_], rfl, List.forall_mem_singleton.2 trivial⟩
  | destroyOne reason s h hf =>
    rw [bury_eq]
    exact ⟨[_], rfl, List.forall_mem_singleton.2 ⟨⟨s, rfl, h⟩, hf⟩⟩
  | letGo =>
    rw [discard_eq]
    exact ⟨[], rfl, hnone⟩
  | lose =>
    rw [settle_eq]
    exact ⟨[], rfl, hnone⟩
  | _ => exact ⟨[], rfl, hnone⟩

/-- Every entry of the history was justified by a pool of the run when it was written. That pool
knew of the earlier entries, except for those that were written in the same step. -/
theorem Arises.exists_writer (h : q.Arises) {later earlier : List Record} {r : Record}
    (he : q.history = later ++ r :: earlier) :
    ∃ p : Pool, p.Arises ∧ p.Steps q ∧ p.Justifies r ∧
      ∃ same, earlier = same ++ p.history ∧ ∀ e ∈ same, p.Justifies e := by
  obtain ⟨start, hstart, hsteps⟩ := h
  induction hsteps generalizing later with
  | refl =>
    obtain ⟨⟩ := hstart
    exact absurd he.symm (List.append_ne_nil_of_right_ne_nil _ (List.cons_ne_nil _ _))
  | @tail p q hsteps hstep ih =>
    obtain ⟨new, hnew, hall⟩ := hstep.justified
    rw [hnew] at he
    rcases List.append_eq_append_iff.1 he with ⟨more, -, hp⟩ | ⟨more, rfl, hp⟩
    · obtain ⟨o, ho, hop, hj⟩ := ih hp
      exact ⟨o, ho, hop.tail hstep, hj⟩
    · cases more with
      | nil =>
        have hall : p.history = [] ++ r :: earlier := hp.symm
        obtain ⟨o, ho, hop, hj⟩ := ih hall
        exact ⟨o, ho, hop.tail hstep, hj⟩
      | cons r' more =>
        obtain ⟨rfl, rfl⟩ := List.cons.inj hp
        exact ⟨p, ⟨start, hstart, hsteps⟩, .single hstep, hall r (by simp), more, rfl,
          fun e he => hall e (by simp [he])⟩

/-- Every entry of the history shows the pool at some moment of the run. -/
theorem Arises.exists_seen (h : q.Arises) :
    ∀ r ∈ q.history, ∃ p : Pool, p.Arises ∧ p.Steps q ∧ r.seen = p.sight := by
  obtain ⟨start, hstart, hsteps⟩ := h
  induction hsteps with
  | refl =>
    obtain ⟨⟩ := hstart
    exact fun _ hr => absurd hr List.not_mem_nil
  | @tail p q hsteps hstep ih =>
    have hp : p.Arises := ⟨start, hstart, hsteps⟩
    obtain ⟨after, before, he, hafter, hbefore⟩ := hstep.history
    intro r hr
    rw [he, List.mem_append, List.mem_append] at hr
    rcases hr with hr | hr | hr
    · exact ⟨q, hp.steps (.single hstep), .refl, hafter r hr⟩
    · exact ⟨p, hp, .single hstep, hbefore r hr⟩
    · obtain ⟨o, ho, hop, hseen⟩ := ih r hr
      exact ⟨o, ho, hop.tail hstep, hseen⟩

/-- What an entry tells about any pool of a run that justifies it is true. -/
theorem Occurs.records {I : Pool → Prop} {K : Record → Prop} (hnew : ∀ p, IsNew p → I p)
    (hstep : ∀ p q, I p → Step p q → I q) (hk : ∀ p r, I p → p.Justifies r → K r)
    (h : q.Occurs) : ∀ r ∈ q.history, K r := by
  intro r hr
  obtain ⟨later, earlier, he⟩ := List.append_of_mem hr
  obtain ⟨p, hp, -, hj, -⟩ := h.arises.exists_writer he
  exact hk p r (hp.invariant hnew hstep) hj

/-- Every entry of the history was justified when it was written. -/
theorem Occurs.exists_justifies (h : q.Occurs) : ∀ r ∈ q.history, ∃ p : Pool, p.Justifies r :=
  h.records (I := fun _ => True) (fun _ _ => trivial) (fun _ _ _ _ => trivial)
    fun p _ _ hj => ⟨p, hj⟩

/-- What is true of all that can be seen at every step is true of all that the history shows. -/
theorem Occurs.seen {I : Pool → Prop} {S : Config → Sight → Prop} (hnew : ∀ p, IsNew p → I p)
    (hstep : ∀ p q, I p → Step p q → I q) (hs : ∀ p, I p → S p.config p.sight) (h : q.Occurs) :
    S q.config q.sight ∧ ∀ r ∈ q.history, S q.config r.seen := by
  refine ⟨hs q (h.invariant hnew hstep), fun r hr => ?_⟩
  obtain ⟨p, hp, hpq, hseen⟩ := h.arises.exists_seen r hr
  rw [hseen, hpq.config]
  exact hs p (hp.invariant hnew hstep)

/-- What is true of all that can be seen at every change is true of all that is seen from then on,
if changes add entries to the history that show the pool before or after them. -/
theorem forall_seen_of_changes {R : Pool → Pool → Prop} {I : Pool → Prop} {S : Sight → Prop}
    (hR : ∀ {p q : Pool}, R p q → ∃ after before, q.history = after ++ (before ++ p.history) ∧
      (∀ r ∈ after, r.seen = q.sight) ∧ ∀ r ∈ before, r.seen = p.sight)
    (hI : ∀ p q, I p → R p q → I q) (hS : ∀ p, I p → S p.sight) (hp : I p)
    (h : Relation.ReflTransGen R p q) :
    I q ∧ ∃ new, q.history = new ++ p.history ∧ ∀ r ∈ new, S r.seen := by
  induction h with
  | refl => exact ⟨hp, [], rfl, fun _ hr => absurd hr List.not_mem_nil⟩
  | @tail o q _ h ih =>
    obtain ⟨ho, new, hnew, hall⟩ := ih
    have hq : I q := hI o q ho h
    obtain ⟨after, before, he, hafter, hbefore⟩ := hR h
    refine ⟨hq, after ++ (before ++ new), ?_, fun r hr => ?_⟩
    · rw [he, hnew, List.append_assoc, List.append_assoc]
    · rw [List.mem_append, List.mem_append] at hr
      rcases hr with hr | hr | hr
      · exact hafter r hr ▸ hS q hq
      · exact hbefore r hr ▸ hS o ho
      · exact hall r hr

/-- In a run from a new pool that is all there is to see. -/
theorem IsNew.forall_seen {R : Pool → Pool → Prop} {I : Pool → Prop} {S : Sight → Prop}
    (hR : ∀ {p q : Pool}, R p q → ∃ after before, q.history = after ++ (before ++ p.history) ∧
      (∀ r ∈ after, r.seen = q.sight) ∧ ∀ r ∈ before, r.seen = p.sight)
    (hI : ∀ p q, I p → R p q → I q) (hS : ∀ p, I p → S p.sight) (hp : p.IsNew) (hIp : I p)
    (h : Relation.ReflTransGen R p q) : ∀ s ∈ q.sight :: q.history.map (·.seen), S s := by
  obtain ⟨hq, new, hnew, hall⟩ := forall_seen_of_changes hR hI hS hIp h
  have hstart : p.history = [] := by
    obtain ⟨⟩ := hp
    rfl
  rw [hstart, List.append_nil] at hnew
  exact List.forall_mem_cons.2 ⟨hS q hq, List.forall_mem_map.2 (hnew ▸ hall)⟩

/-- What is true of all that can be seen at every step is true of all that can be seen in a run. -/
theorem Occurs.forall_seen {I : Pool → Prop} {S : Sight → Prop} (hnew : ∀ p, IsNew p → I p)
    (hstep : ∀ p q, I p → Step p q → I q) (hs : ∀ p, I p → S p.sight) (h : q.Occurs) :
    ∀ s ∈ q.sight :: q.history.map (·.seen), S s := by
  obtain ⟨start, hstart, hsteps⟩ := h.arises
  exact hstart.forall_seen Step.history hstep hs (hnew _ hstart) hsteps

/-- A relation between what can be seen before and after every step holds between any two entries
of the history, in the order in which they were written, and between each of them and the pool. -/
theorem Arises.ordered {R : Sight → Sight → Prop} (hrefl : ∀ s, R s s)
    (htrans : ∀ {s t u}, R s t → R t u → R s u)
    (hstep : ∀ {p q : Pool}, p.Step q → R p.sight q.sight) (h : q.Arises) :
    (∀ r ∈ q.history, R r.seen q.sight) ∧
      q.history.Pairwise fun later earlier => R earlier.seen later.seen := by
  refine h.invariant (I := fun p => (∀ r ∈ p.history, R r.seen p.sight) ∧
    p.history.Pairwise fun later earlier => R earlier.seen later.seen) ?_ ?_
  · rintro p ⟨⟩
    exact ⟨fun _ hr => absurd hr List.not_mem_nil, .nil⟩
  · intro p q ⟨hnow, hpair⟩ h
    have hpq := hstep h
    obtain ⟨after, before, he, hafter, hbefore⟩ := h.history
    have hbeforeq : ∀ r ∈ before ++ p.history, R r.seen q.sight := by
      intro r hr
      rcases List.mem_append.1 hr with hr | hr
      · exact hbefore r hr ▸ hpq
      · exact htrans (hnow r hr) hpq
    rw [he]
    refine ⟨fun r hr => ?_, List.pairwise_append.2 ⟨?_, List.pairwise_append.2 ⟨?_, hpair, ?_⟩, ?_⟩⟩
    · rcases List.mem_append.1 hr with hr | hr
      · exact hafter r hr ▸ hrefl _
      · exact hbeforeq r hr
    · refine List.pairwise_of_forall_mem_list fun r hr s hs => ?_
      rw [hafter r hr, hafter s hs]
      exact hrefl _
    · refine List.pairwise_of_forall_mem_list fun r hr s hs => ?_
      rw [hbefore r hr, hbefore s hs]
      exact hrefl _
    · intro r hr s hs
      rw [hbefore r hr]
      exact hnow s hs
    · intro r hr s hs
      rw [hafter r hr]
      exact hbeforeq s hs

end Pool

end LeasePool
