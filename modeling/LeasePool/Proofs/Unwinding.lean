import LeasePool.Proofs.UserCode
import Mathlib.Logic.Function.Iterate

/-!
# Destructors that run no operation

Where no destructor runs an operation, letting go of a resource destroys it at most and ends in a
panic at most, and unwinding is a change of the pool: the holdings above a mark are given back.
-/

namespace LeasePool

/-- The destructors of quiet user code run nothing. -/
theorem UserCode.Runs.destructor_eq_nil {u : UserCode} (h : u.IsQuiet) (resource : Nat) :
    u.destructor resource = [] :=
  List.eq_nil_iff_forall_not_mem.2 (h.destructor resource)

namespace Pool

variable {p : Pool}

theorem user_giveBackLatest (p : Pool) : p.giveBackLatest.user = p.user := by
  rw [giveBackLatest_eq]

/-- Give back the holdings above a mark on the stack. -/
def unwindTo (mark : Nat) (p : Pool) : Pool :=
  giveBackLatest^[p.holdings.length - mark] p

private theorem iterate_giveBackLatest_eq (n : Nat) (p : Pool) :
    giveBackLatest^[n] p = { p with
      table := { p.table with
        creating := (giveBackLatest^[n] p).table.creating
        overdrawn := (giveBackLatest^[n] p).table.overdrawn }
      holdings := (giveBackLatest^[n] p).holdings
      destroyed := (giveBackLatest^[n] p).destroyed } := by
  induction n generalizing p with
  | zero => rfl
  | succ n ih =>
    rw [Function.iterate_succ_apply, ih, giveBackLatest_eq]

/-- Unwinding touches only the reservations, the holdings and the destroyed resources. -/
theorem unwindTo_eq (mark : Nat) (p : Pool) :
    p.unwindTo mark = { p with
      table := { p.table with
        creating := (p.unwindTo mark).table.creating
        overdrawn := (p.unwindTo mark).table.overdrawn }
      holdings := (p.unwindTo mark).holdings
      destroyed := (p.unwindTo mark).destroyed } :=
  iterate_giveBackLatest_eq _ p

/-- What a destructor leaves to do is a panic at most. -/
theorem parting_eq (hp : ∀ r, p.user.destructor r = []) (resource : Nat) :
    p.parting resource = ([], !p.isHeld resource && p.brittle.contains resource) := by
  unfold parting
  cases p.isHeld resource with
  | true => rfl
  | false => rw [if_neg Bool.false_ne_true, hp]; rfl

/-- Where destructors run nothing, nothing runs when a holding is given back. -/
theorem partingLatest_eq_nil (hp : ∀ r, p.user.destructor r = []) : p.partingLatest = [] := by
  unfold partingLatest
  split
  · rfl
  · split
    · rw [parting_eq (by exact hp)]
    · rfl

end Pool

namespace PoolM

variable {α : Type} {m : PoolM α} {p q : Pool} {nested : Op → PoolM Reply}

/-- Letting go of a resource destroys it, unless something still holds it, and panics if its
destructor does. -/
theorem dispose_apply (hp : ∀ r, p.user.destructor r = []) (resource : Nat) :
    dispose nested resource p =
      (if p.isHeld resource = false ∧ resource ∈ p.brittle then
        .panicked (destructorPanic resource) else .done (), p.discard resource) := by
  simp only [dispose, bind_apply, update_apply, Pool.parting_eq hp, part, runInside, pure_apply]
  cases p.isHeld resource <;> simp
  split <;> rfl

/-- Unwinding runs nothing, and gives back one holding after the other. -/
theorem unwind_apply (hp : ∀ r, p.user.destructor r = []) (n : Nat) :
    unwind nested n p = (.done (), Pool.giveBackLatest^[n] p) := by
  induction n generalizing p with
  | zero => rfl
  | succ n ih =>
    have hone : unwindOne nested p = (.done (), p.giveBackLatest) := by
      simp only [unwindOne, bind_apply, update_apply, Pool.partingLatest_eq_nil hp]
      rfl
    have hrest : ∀ r, p.giveBackLatest.user.destructor r = [] := by
      rwa [Pool.user_giveBackLatest]
    rw [unwind, bind_of_done hone, ih hrest, Function.iterate_succ_apply]

/-- A panic is caught, and what the action still held is given back. -/
theorem attempt_of_panicked {panic : Panic} (h : m p = (.panicked panic, q))
    (hq : ∀ r, q.user.destructor r = []) :
    attempt nested m p = (.done (.error panic), q.unwindTo p.holdings.length) := by
  unfold attempt
  rw [h]
  exact bind_of_done (unwind_apply hq _) _

/-- A panic that leaves nothing on the stack has nothing to unwind. -/
theorem attempt_of_balanced {panic : Panic} (h : m p = (.panicked panic, q))
    (hq : q.holdings = p.holdings) : attempt nested m p = (.done (.error panic), q) := by
  unfold attempt
  rw [h]
  dsimp only
  rw [hq, Nat.sub_self]
  rfl

end PoolM

end LeasePool
