import LeasePool.Pool.Run

/-!
# What user code may do

User code is judged by the operations that its future calls will run. A predicate on operations
extends to behaviours, to routines and to all user code of a pool, and it stays true call after
call. Two such predicates matter: user code that runs public operations only, which reach a pool as
any caller does, and user code that runs no operation at all.
-/

namespace LeasePool

/-- Whether an operation reaches past the interface of a pool, into its slots or reservations. -/
def Op.isInternal : Op → Bool
  | .setState .. | .reserve _ | .dropReservation | .create .. | .destroy .. => true
  | _ => false

/-- All operations that the behaviours of a routine run. -/
def Routine.ops {outcome : Type} (r : Routine (Behaviour Op outcome)) : List Op :=
  r.queue.flatMap (·.during) ++ r.rest.during

/-- The operations of the user code that an operation installs. -/
def Op.installs : Op → List Op
  | .setCheck _ routine | .setCheckDefault routine => routine.ops
  | .pushFactory behaviours => behaviours.flatMap (·.during)
  | .setFactoryDefault behaviour => behaviour.during
  | _ => []

/-- An operation that any caller of a pool can ask for. The user code that it installs runs such
operations only. -/
inductive Op.IsPublic : Op → Prop
  | intro {op : Op} : op.isInternal = false → (∀ o ∈ op.installs, o.IsPublic) → op.IsPublic

/-- A public operation reaches past no interface. -/
theorem Op.IsPublic.isInternal_eq_false {op : Op} (h : op.IsPublic) : op.isInternal = false := by
  obtain ⟨hi, -⟩ := h
  exact hi

/-- The user code that a public operation installs runs public operations. -/
theorem Op.IsPublic.of_mem_installs {op o : Op} (h : op.IsPublic) (ho : o ∈ op.installs) :
    o.IsPublic := by
  obtain ⟨-, hs⟩ := h
  exact hs o ho

/-- An operation that installs nothing. -/
theorem Op.IsPublic.of_installs_eq_nil {op : Op} (hi : op.isInternal = false)
    (hs : op.installs = []) : op.IsPublic :=
  .intro hi fun _ ho => absurd (hs ▸ ho) List.not_mem_nil

variable {P : Op → Prop}

/-- All operations that a hook routine runs in future calls have a property. -/
def HookRoutine.Runs (P : Op → Prop) (r : HookRoutine) : Prop :=
  ∀ n, r.calls ≤ n → ∀ op ∈ (r.behaviour n).during, P op

/-- All operations that a hook runs in future calls have a property. -/
def Hook.Runs (P : Op → Prop) (h : Hook) : Prop :=
  ∀ call routine, h.routine? call = some routine → routine.Runs P

/-- All operations that the user code of a pool runs in future calls have a property. -/
structure UserCode.Runs (P : Op → Prop) (u : UserCode) : Prop where
  factory : ∀ op ∈ u.factory.ops, P op
  check : ∀ c ∈ u.checks, ∀ op ∈ c.2.ops, P op
  checkDefault : ∀ op ∈ u.checkDefault.ops, P op
  hook : ∀ call routine, u.hook.routine? call = some routine → routine.Runs P
  destructor : ∀ resource, ∀ op ∈ u.destructor resource, P op

/-- User code that runs public operations only. -/
abbrev UserCode.IsPublic (u : UserCode) : Prop := u.Runs Op.IsPublic

/-- User code that runs no operations. -/
abbrev UserCode.IsQuiet (u : UserCode) : Prop := u.Runs fun _ => False

/-- The next call of a routine runs operations of the routine. -/
theorem Routine.mem_ops_of_next {outcome : Type} {r : Routine (Behaviour Op outcome)} {op : Op}
    (h : op ∈ r.next.1.during) : op ∈ r.ops := by
  obtain ⟨_ | ⟨b, queue⟩, rest⟩ := r
  · exact List.mem_append_right _ h
  · exact List.mem_append_left _ (List.mem_flatMap.2 ⟨b, List.mem_cons_self, h⟩)

/-- The calls after the next one run operations of the routine. -/
theorem Routine.mem_ops_of_rest {outcome : Type} {r : Routine (Behaviour Op outcome)} {op : Op}
    (h : op ∈ r.next.2.ops) : op ∈ r.ops := by
  obtain ⟨_ | ⟨b, queue⟩, rest⟩ := r
  · exact h
  · rcases List.mem_append.1 h with h | h
    · obtain ⟨c, hc, hop⟩ := List.mem_flatMap.1 h
      exact List.mem_append_left _ (List.mem_flatMap.2 ⟨c, List.mem_cons_of_mem _ hc, hop⟩)
    · exact List.mem_append_right _ h

/-- A hook keeps its promise after a callback. -/
theorem Hook.Runs.withRoutine {h : Hook} (hr : h.Runs P) {call : HookCall} {routine : HookRoutine}
    (hcall : h.routine? call = some routine) : (h.withRoutine routine.next.2 call).Runs P := by
  intro other r hother
  rw [Hook.routine?_withRoutine] at hother
  split at hother
  · cases hother
    intro n hn
    exact hr call routine hcall n (Nat.le_of_succ_le hn)
  · exact hr other r hother

/-- A health check does not change how checks run. -/
theorem UserCode.checkStyle_nextCheck (u : UserCode) (resource : Nat) :
    (u.nextCheck resource).2.checkStyle = u.checkStyle := by
  unfold UserCode.nextCheck
  dsimp only
  split <;> rfl

/-- A health check has nothing to do with the hook. -/
theorem UserCode.hook_nextCheck (u : UserCode) (resource : Nat) :
    (u.nextCheck resource).2.hook = u.hook := by
  unfold UserCode.nextCheck
  dsimp only
  split <;> rfl

/-- Nor has it to do with destructors. -/
theorem UserCode.destructor_nextCheck (u : UserCode) (resource : Nat) :
    (u.nextCheck resource).2.destructor = u.destructor := by
  unfold UserCode.nextCheck
  dsimp only
  split <;> rfl

namespace UserCode.Runs

variable {u : UserCode}

/-- What holds of all operations holds of those of the next factory call. -/
theorem nextFactory (h : u.Runs P) : ∀ op ∈ u.factory.next.1.during, P op :=
  fun op hop => h.factory op (Routine.mem_ops_of_next hop)

/-- User code keeps its promise after a factory call. -/
theorem afterFactory (h : u.Runs P) : { u with factory := u.factory.next.2 }.Runs P :=
  { h with factory := fun op hop => h.factory op (Routine.mem_ops_of_rest hop) }

theorem checkRoutine (h : u.Runs P) (resource : Nat) :
    ∀ op ∈ (u.checkRoutine resource).ops, P op := by
  unfold UserCode.checkRoutine
  cases hl : u.checks.lookup resource with
  | none => exact h.checkDefault
  | some routine =>
    obtain ⟨l, r, hlr, -⟩ := List.lookup_eq_some_iff.1 hl
    exact h.check (resource, routine) (by rw [hlr]; simp)

/-- Replacing the routine for the checks of a resource keeps the promise of the others. -/
theorem withCheck (h : u.Runs P) (resource : Nat) {routine : CheckRoutine}
    (hr : ∀ op ∈ routine.ops, P op) : (u.withCheck resource routine).Runs P := by
  refine { h with check := fun c hc => ?_ }
  rcases List.mem_cons.1 hc with rfl | hc
  · exact hr
  · exact h.check c (List.mem_filter.1 hc).1

/-- What holds of all operations holds of those of the next check. -/
theorem nextCheck (h : u.Runs P) (resource : Nat) :
    ∀ op ∈ (u.nextCheck resource).1.during, P op := by
  have hn : (u.nextCheck resource).1 = (u.checkRoutine resource).next.1 := by
    unfold UserCode.nextCheck
    dsimp only
    split <;> rfl
  rw [hn]
  exact fun op hop => h.checkRoutine resource op (Routine.mem_ops_of_next hop)

/-- User code keeps its promise after a health check. -/
theorem afterCheck (h : u.Runs P) (resource : Nat) : (u.nextCheck resource).2.Runs P := by
  have hr : ∀ op ∈ (u.checkRoutine resource).next.2.ops, P op :=
    fun op hop => h.checkRoutine resource op (Routine.mem_ops_of_rest hop)
  unfold UserCode.nextCheck
  dsimp only
  split
  · exact h.withCheck resource hr
  · exact { h with checkDefault := hr }

/-- What holds of all operations holds of those of the next callback. -/
theorem nextHook (h : u.Runs P) {call : HookCall} {routine : HookRoutine}
    (hr : u.hook.routine? call = some routine) : ∀ op ∈ routine.next.1.during, P op :=
  h.hook call routine hr routine.calls (Nat.le_refl _)

/-- User code keeps its promise after a hook callback. -/
theorem afterHook (h : u.Runs P) {call : HookCall} {routine : HookRoutine}
    (hr : u.hook.routine? call = some routine) :
    { u with hook := u.hook.withRoutine routine.next.2 call }.Runs P :=
  { h with hook := Hook.Runs.withRoutine h.hook hr }

/-- Queueing more behaviours of the factory adds their operations. -/
theorem pushFactory (h : u.Runs P) {behaviours : List (Behaviour Op Production)}
    (hb : ∀ op ∈ behaviours.flatMap (·.during), P op) :
    { u with factory := u.factory.push behaviours }.Runs P := by
  refine { h with factory := fun op hop => ?_ }
  simp only [Routine.ops, Routine.push, List.flatMap_append, List.append_assoc,
    List.mem_append] at hop
  rcases hop with hop | hop | hop
  · exact h.factory op (List.mem_append_left _ hop)
  · exact hb op hop
  · exact h.factory op (List.mem_append_right _ hop)

/-- Replacing the behaviour that stays drops the operations of the old one. -/
theorem withFactoryRest (h : u.Runs P) {behaviour : Behaviour Op Production}
    (hb : ∀ op ∈ behaviour.during, P op) :
    { u with factory := u.factory.withRest behaviour }.Runs P := by
  refine { h with factory := fun op hop => ?_ }
  rcases List.mem_append.1 hop with hop | hop
  · exact h.factory op (List.mem_append_left _ hop)
  · exact hb op hop

/-- What a destructor runs when its resource is let go of. -/
theorem parting {p : Pool} (h : p.user.Runs P) (resource : Nat) :
    ∀ op ∈ (p.parting resource).1, P op := by
  unfold Pool.parting
  split
  · exact fun op hop => absurd hop List.not_mem_nil
  · exact h.destructor resource

/-- What a destructor runs while a panic unwinds. -/
theorem partingLatest {p : Pool} (h : p.user.Runs P) : ∀ op ∈ p.partingLatest, P op := by
  unfold Pool.partingLatest
  split
  · exact fun op hop => absurd hop List.not_mem_nil
  · next rest _ =>
    split
    · exact parting (p := { p with holdings := rest }) h _
    · exact fun op hop => absurd hop List.not_mem_nil

end UserCode.Runs

/-- A pool whose health check has been called and has run no operation yet. -/
def Pool.calledCheck (resource : Nat) (checker : Checker) (p : Pool) : Pool :=
  { p.note (.check resource checker) with user := (p.user.nextCheck resource).2 }

/-- Plain user code runs no operations, so it promises anything. -/
theorem UserCode.plain_runs (P : Op → Prop) : UserCode.plain.Runs P where
  factory _ hop := absurd hop List.not_mem_nil
  check _ hc := absurd hc List.not_mem_nil
  checkDefault _ hop := absurd hop List.not_mem_nil
  hook call routine hr := by
    rw [show UserCode.plain.hook = Hook.idle from rfl, Hook.routine?_idle] at hr
    cases hr
  destructor _ _ hop := absurd hop List.not_mem_nil

end LeasePool
