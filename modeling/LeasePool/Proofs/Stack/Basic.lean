import LeasePool.Proofs.Step

/-!
# The stack of holdings

Every operation leaves the stack of holdings as it found it. A panic may leave more on it, but only
what a panic may take, so that unwinding to the height where the panic is caught consists of steps
and of what destructors run. This is shown for every discipline that allows the steps which are
taken, where a resource is found broken and taken out in one move, or found healthy and marked.
-/

namespace LeasePool

namespace Pool

variable {p q : Pool} {H : List Holding}

/-- Above the part `H` of its stack, a pool holds only what a panic may take. -/
def Strewn (p : Pool) (H : List Holding) : Prop :=
  ∃ J, p.holdings = J ++ H ∧ ∀ h ∈ J, p.MayLose h

theorem Strewn.of_eq (h : p.holdings = H) : p.Strewn H :=
  ⟨[], h, fun _ hh => absurd hh List.not_mem_nil⟩

/-- One more thing that a panic may take. -/
theorem Strewn.of_cons {h : Holding} (hp : p.Strewn (h :: H)) (hl : p.MayLose h) : p.Strewn H := by
  obtain ⟨J, hJ, hall⟩ := hp
  refine ⟨J ++ [h], by simp [hJ], fun k hk => ?_⟩
  rcases List.mem_append.1 hk with hk | hk
  · exact hall k hk
  · rw [List.mem_singleton.1 hk]
    exact hl

/-- Several more things that a panic may take. -/
theorem Strewn.of_append {K : List Holding} (hp : p.Strewn (K ++ H)) (hl : ∀ h ∈ K, p.MayLose h) :
    p.Strewn H := by
  induction K with
  | nil => exact hp
  | cons k K ih =>
    exact ih (hp.of_cons (hl k List.mem_cons_self)) fun h hh => hl h (List.mem_cons_of_mem _ hh)

/-- What a panic may take depends on the history and on what was destroyed. -/
theorem MayLose.mono {h : Holding} (hl : p.MayLose h) (hq : ∀ r ∈ p.history, r ∈ q.history)
    (hd : ∀ r ∈ p.destroyed, r ∈ q.destroyed) : q.MayLose h := by
  unfold MayLose at hl ⊢
  split at hl
  · obtain ⟨r, hr, he⟩ := hl
    exact ⟨r, hq r hr, he⟩
  · exact hl.elim
  · exact hl.elim
  · exact hl.elim
  · exact hl.mono hq hd
  · trivial
  · trivial

/-- What a panic may take can still be taken later. -/
theorem Strewn.mono (hp : p.Strewn H) (hh : q.holdings = p.holdings)
    (hq : ∀ r ∈ p.history, r ∈ q.history) (hd : ∀ r ∈ p.destroyed, r ∈ q.destroyed) :
    q.Strewn H := by
  obtain ⟨J, hJ, hall⟩ := hp
  exact ⟨J, hh.trans hJ, fun h hm => (hall h hm).mono hq hd⟩

/-- Giving back the latest holding after a panic is a step. -/
theorem Step.giveBackLatest {h : Holding} {rest : List Holding} (hh : p.holdings = h :: rest)
    (hl : p.MayLose h) : p.Step p.giveBackLatest := by
  unfold Pool.giveBackLatest
  rw [hh]
  cases h with
  | reservation =>
    have hr : Holding.reservation ∈ p.holdings := by simp [hh]
    have he : ((p.onTable (·.unreserve)).unhold .reservation).holdings = rest := by
      simp [unhold, onTable, hh]
    have := Step.unreserve hr
    simp only [unhold, onTable, hh, List.erase_cons_head] at this
    exact this
  | product | handle => exact hl.elim
  | slot tenure id resource => exact .lose _ rest resource hh rfl hl
  | removed reason s => exact .lose _ rest s.resource hh rfl hl
  | reference resource => exact .lose _ rest resource hh rfl hl

theorem slots_giveBackLatest (p : Pool) : p.giveBackLatest.table.slots = p.table.slots := by
  rw [giveBackLatest_eq]

theorem findings_giveBackLatest (p : Pool) : p.giveBackLatest.findings = p.findings := by
  rw [giveBackLatest_eq]
  rfl

/-- User code was called a moment ago, and is about to run operations: those of the call of the
factory, of a health check or of a routine of the hook, or those of the destructor of a resource
that was let go of, while a panic unwinds or not. -/
inductive Calling : Pool → List Op → Prop
  | factory (p : Pool) (origin : Origin) :
      Calling { p.note (.factory origin) with
        user := { p.user with factory := p.user.factory.next.2 } } p.user.factory.next.1.during
  | check (p : Pool) (resource : Nat) (checker : Checker) :
      Calling (p.calledCheck resource checker) (p.user.nextCheck resource).1.during
  | hook {p q : Pool} {call : HookCall} {routine : HookRoutine}
      (hr : p.user.hook.routine? call = some routine)
      (h : PoolM.aim routine.next.1.outcome.wanted { p.note (.noted call p.status) with
        user := { p.user with hook := p.user.hook.withRoutine routine.next.2 call } } =
          (.done (), q)) :
      Calling q routine.next.1.during
  | destructor (p : Pool) (resource : Nat) :
      Calling (p.discard resource) (p.parting resource).1
  | unwinding (p : Pool) : Calling p.giveBackLatest p.partingLatest

/-- What backs a check depends on the stack alone. -/
theorem Backs.of_holdings {resource : Nat} {checker : Checker} (hb : p.Backs resource checker)
    (hq : q.holdings = p.holdings) : q.Backs resource checker := by
  cases checker <;> simpa only [Backs, hq] using hb

/-- A discipline to which the jobs can keep: their own steps are moves of it, and it is one move to
find a resource broken and to take it out, or to find it healthy and to mark its slot. -/
class Hosts (d : Discipline) : Prop where
  tame : ∀ {p}, d.valid p → p.IsTame
  grows : ∀ {p q}, d.moves p q → p.history <:+ q.history
  perishes : ∀ {p q}, d.moves p q → p.destroyed ⊆ q.destroyed
  step : ∀ {p q}, d.valid p → p.PlainStep q → d.moves p q
  weed : ∀ {p q}, d.valid p → p.Weeds q → d.moves p q
  pass : ∀ {p q}, d.valid p → p.Passes q → d.moves p q

/-- A discipline to which all operations can keep. -/
class Admits (d : Discipline) : Prop extends Hosts d where
  allow : ∀ {p q}, d.valid p → p.Step q → q.findings = p.findings → d.moves p q
  reject : ∀ {p q}, d.valid p → p.Rejects q → d.moves p q
  approve : ∀ {p q}, d.valid p → p.Approves q → d.moves p q

variable {d : Discipline}

/-- What is a move of a discipline step by step is one move. -/
theorem moves_of_steps {R : Pool → Pool → Prop}
    (step : ∀ {p q}, d.valid p → R p q → d.moves p q) (hp : d.valid p)
    (h : Relation.ReflTransGen R p q) : d.moves p q := by
  induction h with
  | refl => exact d.refl p
  | tail _ h ih => exact d.trans ih (step (d.keep hp ih) h)

/-- The jobs can keep to a discipline if each of their steps is a move of it. -/
theorem Hosts.of_jobStep (tame : ∀ {p}, d.valid p → p.IsTame)
    (grows : ∀ {p q}, d.moves p q → p.history <:+ q.history)
    (perishes : ∀ {p q}, d.moves p q → p.destroyed ⊆ q.destroyed)
    (step : ∀ {p q}, d.valid p → p.JobStep q → d.moves p q) : Hosts d where
  tame := tame
  grows := grows
  perishes := perishes
  step hp h := step hp h.job
  weed hp h := moves_of_steps step hp h.steps
  pass hp h := moves_of_steps step hp h.steps

/-- All operations can keep to a discipline if each step is a move of it. -/
theorem Admits.of_step (tame : ∀ {p}, d.valid p → p.IsTame)
    (grows : ∀ {p q}, d.moves p q → p.history <:+ q.history)
    (perishes : ∀ {p q}, d.moves p q → p.destroyed ⊆ q.destroyed)
    (step : ∀ {p q}, d.valid p → p.Step q → d.moves p q) : Admits d where
  toHosts := .of_jobStep tame grows perishes fun hp h => step hp h.step
  allow hp h _ := step hp h
  reject hp h := moves_of_steps step hp h.steps
  approve hp h := moves_of_steps step hp h.steps

instance : Admits publicRun :=
  .of_step id Steps.history_suffix Steps.destroyed_subset fun _ h => .single h

/-- Several steps of a job are one move. -/
theorem Hosts.steps [Hosts d] (hp : d.valid p) (h : Relation.ReflTransGen PlainStep p q) :
    d.moves p q :=
  moves_of_steps Hosts.step hp h

/-- A factory call starts. -/
theorem Hosts.factory [Hosts d] {origin : Origin} (h : p.MayCreate origin) (hp : d.valid p) :
    d.moves p (p.note (.factory origin)) :=
  Hosts.step hp ⟨.aside (.factory origin h) rfl, rfl⟩

end Pool

namespace PoolM

open Pool (Hosts Admits)

variable {α β : Type} {d : Discipline} {m : PoolM α} {p : Pool} {done : α → Pool → Prop}
  {after : β → Pool → Prop} {raised : Panic → Pool → Prop}

section Hosted

variable [Hosts d]

/-- A change by one step before an action. -/
theorem Spec.step {g : Pool → Pool} {k : Unit → PoolM β} (hs : p.Step (g p))
    (h : Spec d (k ()) (g p) after raised)
    (slots : (g p).table.slots = p.table.slots := by exact rfl)
    (plain : (g p).findings = p.findings := by exact rfl) :
    Spec d (PoolM.change g >>= k) p after raised :=
  .given fun hv => .change (Hosts.step hv ⟨.aside hs slots, plain⟩) h

/-- A change by one step before an action, which gets a value from the change. -/
theorem Spec.stepValue {g : Pool → α × Pool} {k : α → PoolM β} (hs : p.Step (g p).2)
    (h : Spec d (k (g p).1) (g p).2 after raised)
    (slots : (g p).2.table.slots = p.table.slots := by exact rfl)
    (plain : (g p).2.findings = p.findings := by exact rfl) :
    Spec d (PoolM.update g >>= k) p after raised :=
  .given fun hv => .update (Hosts.step hv ⟨.aside hs slots, plain⟩) h

/-- A change by one step and nothing else. -/
theorem Spec.step_last {g : Pool → Pool} {finish : Unit → Pool → Prop} (hs : p.Step (g p))
    (h : finish () (g p)) (slots : (g p).table.slots = p.table.slots := by exact rfl)
    (plain : (g p).findings = p.findings := by exact rfl) :
    Spec d (PoolM.change g) p finish raised :=
  .given fun hv => .change_last (Hosts.step hv ⟨.aside hs slots, plain⟩) h

theorem Spec.stepValue_last {g : Pool → α × Pool} (hs : p.Step (g p).2)
    (h : done (g p).1 (g p).2) (slots : (g p).2.table.slots = p.table.slots := by exact rfl)
    (plain : (g p).2.findings = p.findings := by exact rfl) :
    Spec d (PoolM.update g) p done raised :=
  .given fun hv => .update_last (Hosts.step hv ⟨.aside hs slots, plain⟩) h

/-- An action that is one step of a job and ends with a value. -/
theorem Spec.ofJob_done {value : α} (hs : p.JobStep (m p).2) (hv : (m p).1 = .done value)
    (hd : done value (m p).2) (plain : (m p).2.findings = p.findings := by exact rfl) :
    Spec d m p done raised :=
  .given fun hp => .of_done (Prod.ext hv rfl) (Hosts.step hp ⟨hs, plain⟩) hd

end Hosted

/-- An action that is one step and ends with a value. -/
theorem Spec.ofStep_done [Admits d] {value : α} (hs : p.Step (m p).2)
    (hv : (m p).1 = .done value) (hd : done value (m p).2)
    (plain : (m p).2.findings = p.findings := by exact rfl) : Spec d m p done raised :=
  .given fun hp => .of_done (Prod.ext hv rfl) (Admits.allow hp hs plain) hd

/-- An action that keeps to a discipline, leaves the stack as it found it if it ends with a value,
and no more on it than a panic may take otherwise. -/
def Balanced (d : Discipline) (m : PoolM α) : Prop :=
  ∀ p, Spec d m p (fun _ q => q.holdings = p.holdings) fun _ q => q.Strewn p.holdings

/-- A balanced action that never ends with a panic. -/
def Contained (d : Discipline) (m : PoolM α) : Prop :=
  ∀ p, Spec d m p (fun _ q => q.holdings = p.holdings) fun _ _ => False

/-- An action that is contained is balanced. -/
theorem Contained.balanced (h : Contained d m) : Balanced d m :=
  fun p => (h p).mono (fun _ _ => id) fun _ _ => False.elim

/-- A balanced action that starts from a known stack. -/
theorem Balanced.from {H : List Holding} (h : Balanced d m) {p : Pool} (hp : p.holdings = H) :
    Spec d m p (fun _ q => q.holdings = H) fun _ q => q.Strewn H :=
  hp ▸ h p

theorem Balanced.pure (value : α) : Balanced d (Pure.pure value) :=
  fun _ => .pure rfl

/-- Balanced actions are balanced in sequence. -/
theorem Balanced.bind {f : α → PoolM β} (hm : Balanced d m) (hf : ∀ value, Balanced d (f value)) :
    Balanced d (m >>= f) :=
  fun p => (hm p).bind fun value _ hq => (hf value).from hq

/-- Looking at the pool before balanced actions. -/
theorem Balanced.read {g : Pool → α} {f : α → PoolM β} (hf : ∀ value, Balanced d (f value)) :
    Balanced d (PoolM.read g >>= f) :=
  fun p => .read (hf (g p) p)

/-- A change by one step that leaves the stack and the slots alone. -/
theorem Balanced.step [Hosts d] {g : Pool → Pool} (hs : ∀ p, Pool.Step p (g p))
    (hh : ∀ p, (g p).holdings = p.holdings)
    (slots : ∀ p, (g p).table.slots = p.table.slots := by exact fun _ => rfl)
    (plain : ∀ p, (g p).findings = p.findings := by exact fun _ => rfl) :
    Balanced d (PoolM.change g) :=
  fun p => .step_last (hs p) (hh p) (slots p) (plain p)

theorem Balanced.raise (panic : Panic) : Balanced d (PoolM.raise panic : PoolM α) :=
  fun _ => .raise (.of_eq rfl)

theorem Balanced.map {f : α → β} (hm : Balanced d m) : Balanced d (f <$> m) :=
  fun p => .map (hm p)

/-- The public operations that a call of user code runs keep to a discipline, leave the stack as
they found it, and do not panic. -/
def Nests (d : Discipline) (nested : Op → PoolM Reply) : Prop :=
  ∀ p ops, Pool.Calling p ops → (∀ op ∈ ops, op.IsPublic) →
    Spec d (runInside nested ops) p (fun _ q => q.holdings = p.holdings) fun _ _ => False

/-- It is enough that each operation does so. -/
theorem Nests.of_contained {nested : Op → PoolM Reply}
    (h : ∀ op, op.IsPublic → Contained d (nested op)) : Nests d nested := by
  have hruns (ops : List Op) (hops : ∀ op ∈ ops, op.IsPublic) :
      Contained d (runInside nested ops) := by
    induction ops with
    | nil => exact fun _ => .pure rfl
    | cons op ops ih =>
      intro p
      refine (h op (hops op List.mem_cons_self) p).bind fun _ q hq => ?_
      exact hq ▸ ih (fun o ho => hops o (List.mem_cons_of_mem _ ho)) q
  exact fun p ops _ hops => hruns ops hops p

section Nested

variable [Hosts d] {nested : Op → PoolM Reply} {H : List Holding}

/-- Unwinding after a panic leaves the lower part of the stack, whatever destructors run. -/
theorem Nests.unwind (hn : Nests d nested) (hp : p.Strewn H) :
    Spec d (unwind nested (p.holdings.length - H.length)) p (fun _ q => q.holdings = H)
      fun _ _ => False := by
  obtain ⟨J, hJ, hall⟩ := hp
  have hlen : p.holdings.length - H.length = J.length := by
    rw [hJ, List.length_append]
    omega
  rw [hlen]
  clear hlen
  induction J generalizing p with
  | nil => exact .pure hJ
  | cons h J ih =>
    refine .given fun hv => ?_
    have hstep : p.PlainStep p.giveBackLatest :=
      ⟨.aside (.giveBackLatest hJ (hall h List.mem_cons_self)) (Pool.slots_giveBackLatest p),
        Pool.findings_giveBackLatest p⟩
    have hback : p.giveBackLatest.holdings = J ++ H := by
      rw [Pool.holdings_giveBackLatest, hJ]
      rfl
    have hone : Spec d (unwindOne nested) p
        (fun _ q => q.holdings = p.giveBackLatest.holdings ∧ d.moves p.giveBackLatest q)
        fun _ _ => False :=
      .update (Hosts.step hv hstep)
        (hn _ _ (.unwinding p) (Hosts.tame hv).user.partingLatest).tracked
    refine hone.bind ?_
    rintro _ q ⟨hq, hmoves⟩
    refine ih (hq.trans hback) fun k hk => ?_
    have hmoves := d.trans (Hosts.step hv hstep) hmoves
    exact (hall k (List.mem_cons_of_mem _ hk)).mono (fun _ hr => (Hosts.grows hmoves).subset hr)
      fun _ hr => Hosts.perishes hmoves hr

/-- A caught panic leaves the stack as the action found it. -/
theorem Spec.catch (hn : Nests d nested) (h : Spec d m p done fun _ q => q.Strewn p.holdings) :
    Spec d (PoolM.attempt nested m) p (fun result q => match result with
        | .ok value => done value q
        | .error _ => q.holdings = p.holdings)
      fun _ _ => False :=
  h.attempt _ fun _ _ hq => hn.unwind hq

/-- A caught action goes on from where it arrives first. -/
theorem Nests.moves_attempt (hn : Nests d nested) {n : PoolM α} {q : Pool} (h : m p = n q)
    (hv : d.valid q) (hs : Spec d n q done fun _ r => r.Strewn p.holdings) :
    d.moves q (PoolM.attempt nested m p).2 := by
  obtain ⟨hmoves, he⟩ := hs hv
  unfold PoolM.attempt
  rw [h]
  generalize n q = ending at hmoves he
  obtain ⟨value | panic | _, r⟩ := ending
  · exact hmoves
  · dsimp only
    rw [bind_pure_snd]
    exact d.trans hmoves (hn.unwind he (d.keep hv hmoves)).1
  · exact hmoves

/-- Catching a panic, with what unwinding runs, contains a balanced action. -/
theorem Balanced.attempt (hn : Nests d nested) (hm : Balanced d m) :
    Contained d (PoolM.attempt nested m) := by
  intro p
  refine ((hm p).catch hn).weaken fun result q h => ?_
  cases result <;> exact h

end Nested

end PoolM

end LeasePool
