import LeasePool.Pool.State

/-!
# Actions on a pool

An action reads and changes a pool, and ends with a value, with a panic, or because its budget ran
out. A panic leaves the holdings of the running operations on the stack.
-/

namespace LeasePool

/-- How an action ends. -/
inductive Outcome (α : Type)
  | done (value : α)
  | panicked (p : Panic)
  /-- The budget for nested operations and repeated attempts ran out. -/
  | exceeded
deriving DecidableEq

/-- An action on a pool. -/
def PoolM (α : Type) : Type := Pool → Outcome α × Pool

namespace PoolM

variable {α β : Type}

/-- End at once with a value. -/
protected def pure (value : α) : PoolM α := fun p => (.done value, p)

/-- Go on with the value of the first action. A panic of it, or a spent budget, ends both. -/
protected def bind (m : PoolM α) (f : α → PoolM β) : PoolM β := fun p =>
  match m p with
  | (.done value, p) => f value p
  | (.panicked panic, p) => (.panicked panic, p)
  | (.exceeded, p) => (.exceeded, p)

instance : Monad PoolM where
  pure := PoolM.pure
  bind := PoolM.bind

/-- Look at the pool. -/
def read (f : Pool → α) : PoolM α := fun p => (.done (f p), p)

/-- Change the pool. -/
def change (f : Pool → Pool) : PoolM Unit := fun p => (.done (), f p)

/-- Change the pool and get a value from the change. -/
def update (f : Pool → α × Pool) : PoolM α := fun p => (.done (f p).1, (f p).2)

/-- End with a panic. -/
def raise (panic : Panic) : PoolM α := fun p => (.panicked panic, p)

/-- Give a value, or end with a panic. -/
def ofExcept : Except Panic α → PoolM α
  | .ok value => pure value
  | .error panic => raise panic

/-- End because the budget ran out. -/
def exceed : PoolM α := fun p => (.exceeded, p)

/-- Run an action, and change the pool if it panics. The panic goes on. -/
def onPanic (f : Pool → Pool) (m : PoolM α) : PoolM α := fun p =>
  match m p with
  | (.panicked panic, q) => (.panicked panic, f q)
  | ending => ending

/-- Run an action on another thread, which is not traced, and wait for its end. -/
def elsewhere (m : PoolM α) : PoolM α := fun p =>
  let (outcome, q) := m { p with traced := false }
  (outcome, { q with traced := p.traced })

@[simp] theorem pure_apply (value : α) (p : Pool) :
    (pure value : PoolM α) p = (.done value, p) := rfl

@[simp] theorem read_apply (f : Pool → α) (p : Pool) : read f p = (.done (f p), p) := rfl

@[simp] theorem change_apply (f : Pool → Pool) (p : Pool) : change f p = (.done (), f p) := rfl

@[simp] theorem update_apply (f : Pool → α × Pool) (p : Pool) :
    update f p = (.done (f p).1, (f p).2) := rfl

@[simp] theorem ofExcept_ok (value : α) : (ofExcept (.ok value) : PoolM α) = pure value := rfl

/-- On another thread an action does the same, but is not traced. -/
theorem elsewhere_apply (m : PoolM α) (p : Pool) :
    elsewhere m p = ((m { p with traced := false }).1,
      { (m { p with traced := false }).2 with traced := p.traced }) := rfl

/-- How two actions in sequence run. -/
theorem bind_apply (m : PoolM α) (f : α → PoolM β) (p : Pool) :
    (m >>= f) p = match m p with
      | (.done value, q) => f value q
      | (.panicked panic, q) => (.panicked panic, q)
      | (.exceeded, q) => (.exceeded, q) := rfl

/-- An action that ends with a value hands it on. -/
theorem bind_of_done {m : PoolM α} {p q : Pool} {value : α} (h : m p = (.done value, q))
    (f : α → PoolM β) : (m >>= f) p = f value q := by
  rw [bind_apply, h]

/-- A panic ends what would follow. -/
theorem bind_of_panicked {m : PoolM α} {p q : Pool} {panic : Panic} (h : m p = (.panicked panic, q))
    (f : α → PoolM β) : (m >>= f) p = (.panicked panic, q) := by
  rw [bind_apply, h]

/-- Two actions in sequence end with a value only if both do. -/
theorem exists_of_bind_eq_done {m : PoolM α} {f : α → PoolM β} {p q : Pool} {value : β}
    (h : (m >>= f) p = (.done value, q)) :
    ∃ first r, m p = (.done first, r) ∧ f first r = (.done value, q) := by
  rw [bind_apply] at h
  generalize m p = ending at h
  obtain ⟨first | panic | _, r⟩ := ending
  · exact ⟨first, r, rfl, h⟩
  · cases h
  · cases h

/-- Two actions in sequence run out of budget in the first one or in the second one. -/
theorem exceeded_of_bind {m : PoolM α} {f : α → PoolM β} {p : Pool}
    (h : ((m >>= f) p).1 = .exceeded) :
    (m p).1 = .exceeded ∨ ∃ value q, m p = (.done value, q) ∧ (f value q).1 = .exceeded := by
  rw [bind_apply] at h
  generalize m p = ending at h
  obtain ⟨value | panic | _, q⟩ := ending
  · exact .inr ⟨value, q, rfl, h⟩
  · cases h
  · exact .inl rfl

/-- Replacing the value of an action leaves the same pool. -/
theorem bind_pure_snd (m : PoolM α) (value : β) (p : Pool) :
    ((m >>= fun _ => pure value) p).2 = (m p).2 := by
  rw [bind_apply]
  rcases m p with ⟨_ | _ | _, _⟩ <;> rfl

private theorem bind_pure_self (m : PoolM α) : m.bind PoolM.pure = m := by
  funext p
  unfold PoolM.bind PoolM.pure
  rcases m p with ⟨_ | _ | _, _⟩ <;> rfl

/-- Sequencing is associative. -/
private theorem bind_bind {γ : Type} (m : PoolM α) (f : α → PoolM β) (g : β → PoolM γ) :
    (m.bind f).bind g = m.bind fun a => (f a).bind g := by
  funext p
  unfold PoolM.bind
  rcases m p with ⟨_ | _ | _, _⟩ <;> rfl

instance : LawfulMonad PoolM :=
  LawfulMonad.mk' PoolM bind_pure_self (fun _ _ => rfl) bind_bind

end PoolM

end LeasePool
