import LeasePool.Proofs.FiniteMap

/-!
# Tables and their slots

Operations that take slots out move others to new places. Where places do not matter, a table is
described by the multiset of its slots, and the operations on one slot exchange or remove just that
one. Where they do matter, the first idle slot is the one that comes first in the list.
-/

namespace LeasePool

/-- Taking nothing out of a compact list leaves it as it is. -/
theorem sift_eq_self {α : Type} {p : α → Bool} {xs : List α} (h : ∀ x ∈ xs, p x = false) :
    sift p xs = (xs, []) := by
  fun_induction sift p xs with
  | case1 => rfl
  | case2 x xs hx => exact absurd hx (Bool.eq_false_iff.1 (h x List.mem_cons_self))
  | case3 x xs hx kept taken he ih =>
    have hrest := ih fun y hy => h y (List.mem_cons_of_mem _ hy)
    obtain ⟨rfl, rfl⟩ := Prod.mk.inj (he.symm.trans hrest)
    rfl

/-- If only the last element meets the condition, the others stay in order. -/
theorem takeFirst_concat {α : Type} {p : α → Bool} {xs : List α} {x : α}
    (h : ∀ y ∈ xs, p y = false) (hx : p x = true) : takeFirst p (xs ++ [x]) = some (x, xs) := by
  induction xs with
  | nil => simp [takeFirst, hx, lastToFront]
  | cons y ys ih =>
    have hrest := ih fun z hz => h z (List.mem_cons_of_mem _ hz)
    simp [takeFirst, h y List.mem_cons_self, hrest]

namespace Table

variable {base t : Table Nat} {s : Slot Nat} {slots others : List (Slot Nat)}

/-- Changing the slot with a number leaves slots with other numbers alone. -/
theorem map_change_eq_self {id : Nat} (h : ∀ s ∈ slots, s.id ≠ id) (change : Slot Nat → Slot Nat) :
    slots.map (fun s => if s.id = id then change s else s) = slots := by
  refine (List.map_congr_left fun s hs => ?_).trans (List.map_id _)
  exact if_neg (h s hs)

/-- A table in good order with the given slots in some order, and with the reservations and the next
number of another table. -/
structure IsWith (base : Table Nat) (slots : List (Slot Nat)) (t : Table Nat) : Prop where
  sound : t.IsSound
  slots : t.slots.Perm slots
  creating : t.creating = base.creating
  nextId : t.nextId = base.nextId

theorem IsSound.isKeyed (h : t.IsSound) : t.IsKeyed := ⟨h.nodup, h.fresh⟩

theorem IsSound.isWith (h : t.IsSound) : t.IsWith t.slots t := ⟨h, .refl _, rfl, rfl⟩

namespace IsWith

theorem perm (h : base.IsWith slots t) (hp : slots.Perm others) : base.IsWith others t :=
  ⟨h.sound, h.slots.trans hp, h.creating, h.nextId⟩

theorem mem (h : base.IsWith (s :: slots) t) : s ∈ t.slots :=
  h.slots.mem_iff.2 List.mem_cons_self

/-- A slot is found by its number. -/
theorem find? (h : base.IsWith (s :: slots) t) : t.find? s.id = some s :=
  h.sound.isKeyed.find?_self h.mem

/-- Other slots have other numbers. -/
theorem id_ne (h : base.IsWith (s :: slots) t) : ∀ s' ∈ slots, s'.id ≠ s.id := by
  have hids : t.ids.Perm (s.id :: slots.map (·.id)) := h.slots.map _
  have hnotin := (List.nodup_cons.1 (hids.nodup_iff.1 h.sound.nodup)).1
  exact fun s' hs' he => hnotin (he ▸ List.mem_map_of_mem hs')

/-- Changing a slot exchanges it. -/
theorem modify (h : base.IsWith (s :: slots) t) {change : Slot Nat → Slot Nat}
    (hid : ∀ s, (change s).id = s.id)
    (hvalid : ∀ s, s.state ≠ .invalid → (change s).state ≠ .invalid) :
    base.IsWith (change s :: slots) (t.modify s.id change) where
  sound := h.sound.modify hid hvalid
  slots := by
    have hmap := h.slots.map fun s' => if s'.id = s.id then change s' else s'
    rw [List.map_cons, if_pos rfl, map_change_eq_self h.id_ne] at hmap
    exact hmap
  creating := h.creating
  nextId := h.nextId

theorem setState (h : base.IsWith (s :: slots) t) {state : SlotState} (hs : state ≠ .invalid) :
    base.IsWith ({ s with state } :: slots) (t.setState s.id state) :=
  @modify base t s slots h (fun s => { s with state }) (fun _ => rfl) fun _ _ => hs

/-- A broken slot leaves the others. -/
theorem invalidate (h : base.IsWith (s :: slots) t) :
    base.IsWith slots (t.invalidate s.id).2 where
  sound := (prunes_invalidate h.sound.nodup s.id).isSound h.sound
  slots := by
    have hothers : slots.filter (·.id != s.id) = slots :=
      List.filter_eq_self.2 fun s' hs' => by simpa using h.id_ne s' hs'
    have hfilter := (slots_invalidate h.sound.nodup s.id).trans (h.slots.filter _)
    rwa [List.filter_cons_of_neg (by simp), hothers] at hfilter
  creating := (prunes_invalidate h.sound.nodup s.id).creating.trans h.creating
  nextId := (prunes_invalidate h.sound.nodup s.id).nextId.trans h.nextId

/-- The broken slot itself leaves the table. -/
theorem invalidate_fst (h : base.IsWith (s :: slots) t) :
    (t.invalidate s.id).1 = some { s with state := .invalid } := by
  have hdoes := (h.sound.isKeyed.does_invalidate s.id).1
  rw [show t.index.slot? s.id = some s from h.find?] at hdoes
  exact Answer.slot.inj hdoes

end IsWith

/-- Slots stay if none that is taken out is looked for. -/
theorem filter_removeIdleWhere {p f : Slot Nat → Bool} (t : Table Nat)
    (hf : ∀ s, s.state = .idle → p s = true → f s = false) :
    ((t.removeIdleWhere p).2.slots.filter f).Perm (t.slots.filter f) := by
  have htaken : (t.removeIdleWhere p).1.filter f = [] := by
    refine List.filter_eq_nil_iff.2 fun s hs => ?_
    obtain ⟨hidle, hp⟩ := Bool.and_eq_true_iff.1 (Table.holds_of_mem_removeIdleWhere hs)
    rw [hf s (beq_iff_eq.1 hidle) hp]
    exact Bool.false_ne_true
  have hfilter := (t.prunes_removeIdleWhere p).slots.filter f
  rw [List.filter_append, htaken, List.nil_append] at hfilter
  exact hfilter.symm

/-- Of the idle slots those stay that do not meet the condition. -/
theorem idle_removeIdleWhere (p : Slot Nat → Bool) (t : Table Nat) :
    ((t.removeIdleWhere p).2.slots.filter (·.state == .idle)).Perm
      (t.slots.filter fun s => s.state == .idle && !p s) := by
  have hkept : (t.removeIdleWhere p).2.slots.filter (·.state == .idle) =
      (t.removeIdleWhere p).2.slots.filter fun s => s.state == .idle && !p s := by
    refine List.filter_congr fun s hs => ?_
    have := Table.fails_of_mem_removeIdleWhere hs
    revert this
    cases s.state == .idle <;> simp
  rw [hkept]
  exact filter_removeIdleWhere t fun s hs hp => by rw [hs, hp]; rfl

/-- The slots that are not idle stay. -/
theorem busy_removeIdleWhere (p : Slot Nat → Bool) (t : Table Nat) :
    ((t.removeIdleWhere p).2.slots.filter (·.state != .idle)).Perm
      (t.slots.filter (·.state != .idle)) :=
  filter_removeIdleWhere t fun s hs _ => by rw [hs]; rfl

/-- Nothing is taken out if no slot meets the condition. -/
theorem removeIdleWhere_eq_self {p : Slot Nat → Bool} (h : ∀ s, p s = false) (t : Table Nat) :
    t.removeIdleWhere p = ([], t) := by
  have hsift : sift (fun s => s.state == .idle && p s) t.slots = (t.slots, []) :=
    sift_eq_self fun s _ => by rw [h s, Bool.and_false]
  rw [removeIdleWhere_eq, hsift]

/-- What is changed of a slot comes after its state. -/
theorem modify_setState (id : Nat) (state : SlotState) (change : Slot Nat → Slot Nat) :
    (t.setState id state).modify id change = t.modify id fun s => change { s with state } := by
  simp only [setState, Table.modify, List.map_map]
  congr 1
  refine List.map_congr_left fun s _ => ?_
  simp only [Function.comp_apply]
  by_cases hs : s.id = id
  · simp only [hs, if_true]
  · simp only [hs, if_false]

/-- It does not matter what state a slot has that is found broken. -/
theorem invalidate_setState (id : Nat) (state : SlotState) :
    (t.setState id state).invalidate id = t.invalidate id := by
  have hsame : (t.setState id state).setState id .invalid = t.setState id .invalid :=
    modify_setState ..
  rw [Table.invalidate, hsame]
  rfl

/-- A table that a new slot has entered, with the next number. -/
def enter (s : Slot Nat) (t : Table Nat) : Table Nat :=
  { t with slots := t.slots ++ [s], nextId := t.nextId + 1 }

theorem IsSound.id_ne_of_nextId (ht : t.IsSound) (hs : s.id = t.nextId) :
    ∀ s' ∈ t.slots, s'.id ≠ s.id :=
  fun s' hs' => hs ▸ Nat.ne_of_lt (ht.fresh s' hs')

theorem IsSound.modify_enter (ht : t.IsSound) (hs : s.id = t.nextId)
    (change : Slot Nat → Slot Nat) : (t.enter s).modify s.id change = t.enter (change s) := by
  have hothers := map_change_eq_self (ht.id_ne_of_nextId hs) change
  simp only [Table.modify, enter, List.map_append, List.map_singleton, hothers, if_true]

/-- A new slot that turns out to be broken leaves the table as it was. -/
theorem IsSound.invalidate_enter (ht : t.IsSound) (hs : s.id = t.nextId) :
    (t.enter s).invalidate s.id =
      (some { s with state := .invalid }, { t with nextId := t.nextId + 1 }) := by
  have htake : takeFirst (·.id == s.id) (t.slots ++ [{ s with state := .invalid }]) =
      some ({ s with state := .invalid }, t.slots) := by
    refine takeFirst_concat (fun s' hs' => ?_) (beq_self_eq_true _)
    simpa using ht.id_ne_of_nextId hs s' hs'
  rw [invalidate, setState, ht.modify_enter hs, remove, enter, htake]

/-- A reservation that was just made becomes a slot. -/
theorem commit_reserved (resource : Nat) (state : SlotState) (now : Instant) (t : Table Nat) :
    ({ t with creating := t.creating + 1 }.commit resource state now).2 =
      t.enter ⟨t.nextId, resource, state, now, now, none⟩ := by
  simp [commit, unreserve, enter]

end Table

end LeasePool
