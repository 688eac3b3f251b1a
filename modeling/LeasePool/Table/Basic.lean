import LeasePool.Config
import LeasePool.Table.Compact

/-!
# Slot tables

A table holds one slot for each resource of a pool, and counts the capacity reserved for resources
still being created, so that slots and reservations together never exceed the maximum. Sums are
64-bit words, which lose nothing as long as slots and reservations fit into one. Slot numbers
are never given out twice. Every operation on slots in a bulk only splits the table.
-/

namespace LeasePool

/-- What a slot is used for. -/
inductive SlotState
  /-- Available for acquisition. -/
  | idle
  /-- Held by a caller. -/
  | inUse
  /-- Claimed by the health-care job while its check runs. -/
  | pending
  /-- Found broken, about to leave the table. -/
  | invalid
deriving DecidableEq, Inhabited

/-- The name of a state in a report. -/
def SlotState.name : SlotState → String
  | idle => "Idle"
  | inUse => "InUse"
  | pending => "PendingHealthCheck"
  | invalid => "Invalid"

/-- A resource in a pool, with its state and its times. -/
structure Slot (ρ : Type) where
  id : Nat
  resource : ρ
  state : SlotState
  createdAt : Instant
  /-- When it was last released, or created. -/
  lastUsed : Instant
  /-- When a check last found it healthy. -/
  lastCheck : Option Instant
deriving DecidableEq

/-- The slots of a pool and its reserved capacity. -/
structure Table (ρ : Type) where
  slots : List (Slot ρ) := []
  /-- Reserved creations. -/
  creating : Nat := 0
  /-- The number of the next slot. -/
  nextId : Nat := 1
  /-- How often a reservation was given back that was not counted. -/
  overdrawn : Nat := 0
deriving DecidableEq, Inhabited

namespace Table

variable {ρ : Type}

/-- How many slots are in a state. -/
def count (t : Table ρ) (state : SlotState) : Nat := t.slots.countP (·.state == state)

/-- The resources that exist or are being created, less the broken ones. The sum is a word. -/
def live (t : Table ρ) : Nat := wrap (t.slots.countP (·.state != .invalid) + t.creating)

/-- Reserve capacity for some of the wanted creations, as many as the maximum allows. The reserved
creations are counted in a word. -/
def reserve (wanted max : Nat) (t : Table ρ) : Nat × Table ρ :=
  let granted := min wanted (max - t.live)
  (granted, { t with creating := wrap (t.creating + granted) })

/-- Give back one reservation. -/
def unreserve (t : Table ρ) : Table ρ :=
  { t with
    creating := t.creating - 1
    overdrawn := if t.creating = 0 then t.overdrawn + 1 else t.overdrawn }

/-- Turn one reservation into a slot. -/
def commit (resource : ρ) (state : SlotState) (now : Instant) (t : Table ρ) : Nat × Table ρ :=
  (t.nextId,
    { t.unreserve with
      slots := t.slots ++
        [{ id := t.nextId, resource, state, createdAt := now, lastUsed := now, lastCheck := none }]
      nextId := t.nextId + 1 })

/-- The slot with a number. -/
def find? (t : Table ρ) (id : Nat) : Option (Slot ρ) := t.slots.find? (·.id == id)

/-- Change the slot with a number. -/
def modify (id : Nat) (change : Slot ρ → Slot ρ) (t : Table ρ) : Table ρ :=
  { t with slots := t.slots.map fun s => if s.id = id then change s else s }

/-- Put the slot with a number into a state. -/
def setState (id : Nat) (state : SlotState) (t : Table ρ) : Table ρ :=
  t.modify id fun s => { s with state }

/-- Claim the first idle slot for a caller. -/
def claimIdle (t : Table ρ) : Option (Slot ρ × Table ρ) :=
  (t.slots.find? (·.state == .idle)).map fun s =>
    ({ s with state := .inUse }, t.setState s.id .inUse)

/-- Claim a slot for a health check, if it is still idle. -/
def claimForCheck (id : Nat) (t : Table ρ) : Option (Slot ρ × Table ρ) :=
  match t.find? id with
  | some s =>
    if s.state = .idle then some ({ s with state := .pending }, t.setState id .pending) else none
  | none => none

/-- Take out the slot with a number. -/
def remove (id : Nat) (t : Table ρ) : Option (Slot ρ) × Table ρ :=
  match takeFirst (·.id == id) t.slots with
  | some (s, rest) => (some s, { t with slots := rest })
  | none => (none, t)

/-- Mark the slot with a number as broken and take it out. -/
def invalidate (id : Nat) (t : Table ρ) : Option (Slot ρ) × Table ρ :=
  (t.setState id .invalid).remove id

/-- The numbers of the idle slots, in table order. -/
def idleIds (t : Table ρ) : List Nat := (t.slots.filter (·.state == .idle)).map (·.id)

/-- Take out the idle slots that an action picks, which is asked about idle slots only. -/
def removeIdleWhereM {m : Type → Type} [Monad m] (ask : Slot ρ → m Bool) (t : Table ρ) :
    m (List (Slot ρ) × Table ρ) := do
  let (kept, taken) ← siftM (fun s => if s.state == .idle then ask s else pure false) t.slots
  pure (taken, { t with slots := kept })

/-- Take out the idle slots that meet a condition. -/
def removeIdleWhere (p : Slot ρ → Bool) (t : Table ρ) : List (Slot ρ) × Table ρ :=
  Id.run (t.removeIdleWhereM fun s => pure (p s))

/-- The order from the slot unused for longest, the smaller number first among equals. -/
def lruBefore (a b : Slot ρ) : Bool :=
  a.lastUsed < b.lastUsed || (a.lastUsed == b.lastUsed && a.id ≤ b.id)

/-- Take out the slots with the given numbers, one after another. -/
def removeAll : List Nat → Table ρ → List (Slot ρ) × Table ρ
  | [], t => ([], t)
  | id :: ids, t =>
    let (taken, t) := t.remove id
    let (others, t) := removeAll ids t
    (taken.toList ++ others, t)

/-- Take out up to `n` idle slots, the least recently used ones first. -/
def removeIdleLru (n : Nat) (t : Table ρ) : List (Slot ρ) × Table ρ :=
  let oldest := ((t.slots.filter (·.state == .idle)).mergeSort lruBefore).take n
  t.removeAll (oldest.map (·.id))

/-- Take out all slots. Reservations and slot numbers stay. -/
def drain (t : Table ρ) : List (Slot ρ) × Table ρ := (t.slots, { t with slots := [] })

/-- The idle slots that meet a condition are sifted out of the table. -/
theorem removeIdleWhere_eq (p : Slot ρ → Bool) (t : Table ρ) :
    t.removeIdleWhere p =
      ((sift (fun s => s.state == .idle && p s) t.slots).2,
        { t with slots := (sift (fun s => s.state == .idle && p s) t.slots).1 }) := by
  have hask : (fun s : Slot ρ => if s.state == .idle then (pure (p s) : Id Bool) else pure false) =
      fun s => pure (s.state == .idle && p s) := by
    funext s
    cases s.state == .idle <;> rfl
  rw [removeIdleWhere, removeIdleWhereM, hask, siftM_pure]
  rfl

/-- What is granted adds to the live resources. -/
theorem live_reserve (wanted max : Nat) (t : Table ρ) :
    (t.reserve wanted max).2.live = wrap (t.live + (t.reserve wanted max).1) := by
  simp only [reserve, live]
  rw [wrap_add_wrap, ← Nat.add_assoc]
  exact (Nat.mod_add_mod _ _ _).symm

/-- The slots and the reserved creations are few enough for a word. -/
def FitsWord (t : Table ρ) : Prop := t.slots.length + t.creating ≤ countLimit

/-- Without broken slots the live resources are the slots and the reservations. -/
theorem live_eq_length {t : Table ρ} (h : ∀ s ∈ t.slots, s.state ≠ .invalid) (hw : t.FitsWord) :
    t.live = t.slots.length + t.creating := by
  rw [live, List.countP_eq_length.2 fun s hs => bne_iff_ne.2 (h s hs), wrap_of_le hw]

/-- Nothing wraps around if neither the table nor the maximum is too large for a word. -/
theorem reserve_eq {t : Table ρ} {max : Nat} (h : ∀ s ∈ t.slots, s.state ≠ .invalid)
    (hw : t.FitsWord) (hm : max ≤ countLimit) (wanted : Nat) :
    t.reserve wanted max = (min wanted (max - t.live),
      { t with creating := t.creating + min wanted (max - t.live) }) := by
  have hlive := live_eq_length h hw
  have hsum : t.creating + min wanted (max - t.live) ≤ countLimit := by
    have : t.slots.length + t.creating ≤ countLimit := hw
    omega
  simp only [reserve, wrap_of_le hsum]

/-- Giving back a reservation that was made overdraws nothing. -/
@[simp] theorem overdrawn_unreserve {t : Table ρ} (h : 0 < t.creating) :
    t.unreserve.overdrawn = t.overdrawn :=
  if_neg (Nat.ne_of_gt h)

@[simp] theorem creating_modify (id : Nat) (change : Slot ρ → Slot ρ) (t : Table ρ) :
    (t.modify id change).creating = t.creating := rfl

end Table

end LeasePool
