import LeasePool.Proofs.LeastRecent
import Mathlib.Algebra.Group.Nat.Defs

/-!
# Slot tables as finite maps

A table is a list that is searched from its front, and in which the last slot fills the place of one
that is taken out. Its slots have different numbers, so it can be read as a finite map from numbers
to slots: every operation changes exactly the entries that it names, and says what it has changed.
Numbers are given out in order, and none of them twice.
-/

namespace LeasePool

/-- A finite map from numbers to slots, with the reserved capacity and the next number. -/
@[ext]
structure Index (ρ : Type) where
  slot? : Nat → Option (Slot ρ)
  creating : Nat
  nextId : Nat

namespace Index

variable {ρ : Type}

/-- Replace the entry for a number. -/
def put (id : Nat) (entry : Option (Slot ρ)) (m : Index ρ) : Index ρ :=
  { m with slot? := Function.update m.slot? id entry }

/-- Delete the entries for the numbers of some slots. -/
def without (gone : List (Slot ρ)) (m : Index ρ) : Index ρ :=
  { m with slot? := fun id => if id ∈ gone.map (·.id) then none else m.slot? id }

/-- The last entry for a number counts. -/
theorem put_put (id : Nat) (entry other : Option (Slot ρ)) (m : Index ρ) :
    (m.put id entry).put id other = m.put id other := by
  simp only [put, Function.update_idem]

/-- A list of all entries of a map that meet a condition. -/
structure Lists (m : Index ρ) (p : Slot ρ → Bool) (slots : List (Slot ρ)) : Prop where
  nodup : (slots.map (·.id)).Nodup
  mem_iff : ∀ s, s ∈ slots ↔ m.slot? s.id = some s ∧ p s = true

end Index

namespace Table

variable {ρ : Type}

/-- A call of an operation that changes a table. -/
inductive Call (ρ : Type)
  | reserve (wanted max : Nat)
  | unreserve
  | commit (resource : ρ) (state : SlotState) (now : Instant)
  | modify (id : Nat) (change : Slot ρ → Slot ρ)
  | claimIdle
  | claimForCheck (id : Nat)
  | remove (id : Nat)
  | invalidate (id : Nat)
  | removeIdleWhere (p : Slot ρ → Bool)
  | removeIdleLru (n : Nat)
  | drain

/-- What a call answers. -/
inductive Answer (ρ : Type)
  | nothing
  | granted (n : Nat)
  /-- The number of a new slot. -/
  | issued (id : Nat)
  | slot (s : Option (Slot ρ))
  | slots (taken : List (Slot ρ))

/-- The number that an answer gives out. -/
def Answer.issued? : Answer ρ → Option Nat
  | issued id => some id
  | _ => none

namespace Call

/-- Answer a call. -/
def run (t : Table ρ) : Call ρ → Answer ρ × Table ρ
  | reserve wanted max => (.granted (t.reserve wanted max).1, (t.reserve wanted max).2)
  | unreserve => (.nothing, t.unreserve)
  | commit resource state now =>
    (.issued (t.commit resource state now).1, (t.commit resource state now).2)
  | modify id change => (.nothing, t.modify id change)
  | claimIdle =>
    match t.claimIdle with
    | some (s, u) => (.slot (some s), u)
    | none => (.slot none, t)
  | claimForCheck id =>
    match t.claimForCheck id with
    | some (s, u) => (.slot (some s), u)
    | none => (.slot none, t)
  | remove id => (.slot (t.remove id).1, (t.remove id).2)
  | invalidate id => (.slot (t.invalidate id).1, (t.invalidate id).2)
  | removeIdleWhere p => (.slots (t.removeIdleWhere p).1, (t.removeIdleWhere p).2)
  | removeIdleLru n => (.slots (t.removeIdleLru n).1, (t.removeIdleLru n).2)
  | drain => (.slots t.drain.1, t.drain.2)

/-- Only reservations that were made are used up or given back, and a changed slot keeps its number.
-/
def IsAllowed (t : Table ρ) : Call ρ → Prop
  | unreserve | commit .. => 0 < t.creating
  | modify _ change => ∀ s, (change s).id = s.id
  | _ => True

/-- What a call does to a finite map, and what it answers. Sums are words. -/
def Does (m : Index ρ) (answer : Answer ρ) (m' : Index ρ) : Call ρ → Prop
  | reserve wanted max =>
    ∃ live, m.Lists (·.state != .invalid) live ∧
      let granted := min wanted (max - wrap (live.length + m.creating))
      answer = .granted granted ∧ m' = { m with creating := wrap (m.creating + granted) }
  | unreserve => answer = .nothing ∧ m' = { m with creating := m.creating - 1 }
  | commit resource state now =>
    answer = .issued m.nextId ∧ m.slot? m.nextId = none ∧
      m' = { m.put m.nextId (some ⟨m.nextId, resource, state, now, now, none⟩) with
        creating := m.creating - 1, nextId := m.nextId + 1 }
  | modify id change => answer = .nothing ∧ m' = m.put id ((m.slot? id).map change)
  | claimIdle =>
    (answer = .slot none ∧ m' = m ∧ ∀ id s, m.slot? id = some s → s.state ≠ .idle) ∨
      ∃ id s, m.slot? id = some s ∧ s.state = .idle ∧
        answer = .slot (some { s with state := .inUse }) ∧
        m' = m.put id (some { s with state := .inUse })
  | claimForCheck id =>
    (answer = .slot none ∧ m' = m ∧ ∀ s, m.slot? id = some s → s.state ≠ .idle) ∨
      ∃ s, m.slot? id = some s ∧ s.state = .idle ∧
        answer = .slot (some { s with state := .pending }) ∧
        m' = m.put id (some { s with state := .pending })
  | remove id => answer = .slot (m.slot? id) ∧ m' = m.put id none
  | invalidate id =>
    answer = .slot ((m.slot? id).map fun s => { s with state := .invalid }) ∧ m' = m.put id none
  | removeIdleWhere p =>
    ∃ taken, m.Lists (fun s => s.state == .idle && p s) taken ∧
      answer = .slots taken ∧ m' = m.without taken
  | removeIdleLru n =>
    ∃ idle, m.Lists (·.state == .idle) idle ∧ idle.Pairwise (lruBefore · ·) ∧
      answer = .slots (idle.take n) ∧ m' = m.without (idle.take n)
  | drain =>
    ∃ all, m.Lists (fun _ => true) all ∧
      answer = .slots all ∧ m' = { m with slot? := fun _ => none }

end Call

/-- A table that calls have made of the empty one, and their answers, the latest first. -/
inductive Built : Table ρ → List (Answer ρ) → Prop
  | empty : Built {} []
  | call {t : Table ρ} {log : List (Answer ρ)} (h : Built t log) (c : Call ρ)
      (hc : c.IsAllowed t) : Built (c.run t).2 ((c.run t).1 :: log)

/-- The numbers that were given out, the latest first. -/
def issuedIds (log : List (Answer ρ)) : List Nat := log.filterMap Answer.issued?

/-- No two slots have the same number, and no number is still to be given out. -/
structure IsKeyed (t : Table ρ) : Prop where
  nodup : t.ids.Nodup
  fresh : ∀ s ∈ t.slots, s.id < t.nextId

/-- A table as a finite map. -/
def index (t : Table ρ) : Index ρ := ⟨t.find?, t.creating, t.nextId⟩

variable {t u : Table ρ} {log : List (Answer ρ)} {id : Nat} {s : Slot ρ}

/-- A slot is found by its number, and only by it. -/
theorem IsKeyed.find?_eq_some_iff (h : t.IsKeyed) :
    t.find? id = some s ↔ s ∈ t.slots ∧ s.id = id :=
  Table.find?_eq_some_iff h.nodup

/-- A slot is found by its own number. -/
theorem IsKeyed.find?_self (h : t.IsKeyed) (hs : s ∈ t.slots) : t.find? s.id = some s :=
  Table.find?_self h.nodup hs

/-- The next number has no slot yet. -/
theorem IsKeyed.find?_nextId (h : t.IsKeyed) : t.find? t.nextId = none := by
  refine List.find?_eq_none.2 fun s hs => ?_
  have := h.fresh s hs
  simp only [beq_iff_eq]
  omega

/-- Reservations have no part in the map from numbers to slots. -/
theorem IsKeyed.of_eq (h : t.IsKeyed) (hs : u.slots = t.slots) (hn : u.nextId = t.nextId) :
    u.IsKeyed := by
  refine ⟨?_, fun s hmem => ?_⟩
  · rw [ids, hs]
    exact h.nodup
  · rw [hn]
    exact h.fresh s (hs ▸ hmem)

/-- Changing a slot but not its number keeps the numbers apart. -/
theorem IsKeyed.modify (h : t.IsKeyed) {change : Slot ρ → Slot ρ}
    (hid : ∀ s, (change s).id = s.id) : (t.modify id change).IsKeyed := by
  refine ⟨?_, fun s hs => ?_⟩
  · rw [ids_modify hid]
    exact h.nodup
  · obtain ⟨s', hs', rfl⟩ := mem_modify.1 hs
    have := h.fresh s' hs'
    split
    · rwa [hid]
    · exact this

/-- A new slot gets the next number. -/
theorem IsKeyed.commit (h : t.IsKeyed) (resource : ρ) (state : SlotState) (now : Instant) :
    (t.commit resource state now).2.IsKeyed := by
  refine ⟨?_, fun s hs => ?_⟩
  · have hids : (t.commit resource state now).2.ids = t.ids ++ [t.nextId] := by
      simp [ids, Table.commit]
    rw [hids, List.nodup_append]
    refine ⟨h.nodup, List.nodup_singleton _, fun a ha b hb => ?_⟩
    obtain ⟨s, hs, rfl⟩ := List.mem_map.1 ha
    rw [List.mem_singleton.1 hb]
    exact Nat.ne_of_lt (h.fresh s hs)
  · change s.id < t.nextId + 1
    rcases mem_or_new_of_mem_commit hs with hs | ⟨hid, -, -⟩
    · exact Nat.lt_succ_of_lt (h.fresh s hs)
    · omega

/-- What is left of a table is still keyed. -/
theorem Prunes.isKeyed {taken : List (Slot ρ)} (h : t.Prunes u taken) (ht : t.IsKeyed) :
    u.IsKeyed := by
  refine ⟨h.nodup ht.nodup, fun s hs => ?_⟩
  rw [h.nextId]
  exact ht.fresh s (h.mem hs)

/-- Changing a slot changes one entry. -/
theorem find?_modify {change : Slot ρ → Slot ρ} (hid : ∀ s, (change s).id = s.id) (id other : Nat) :
    (t.modify id change).find? other =
      if other = id then (t.find? id).map change else t.find? other := by
  have hkey : ∀ s : Slot ρ, (if s.id = id then change s else s).id = s.id := by
    intro s
    split
    · exact hid s
    · rfl
  have hfind : (t.modify id change).find? other =
      (t.find? other).map fun s => if s.id = id then change s else s := by
    simp only [find?, Table.modify, List.find?_map, Function.comp_def, hkey]
  rw [hfind]
  cases hs : t.find? other with
  | none =>
    split
    · next heq => rw [← heq, hs]; rfl
    · rfl
  | some s =>
    have hother := (find?_some hs).2
    split
    · next heq =>
      subst heq
      rw [hs, Option.map_some, Option.map_some, if_pos hother]
    · next hne =>
      rw [Option.map_some, if_neg (hother ▸ hne)]

/-- A new slot adds one entry. -/
theorem IsKeyed.find?_commit (h : t.IsKeyed) (resource : ρ) (state : SlotState) (now : Instant)
    (other : Nat) : (t.commit resource state now).2.find? other =
      if other = t.nextId then some ⟨t.nextId, resource, state, now, now, none⟩
      else t.find? other := by
  have hkeyed := h.commit resource state now
  by_cases hother : other = t.nextId
  · rw [if_pos hother, hother]
    exact hkeyed.find?_eq_some_iff.2 ⟨by simp [Table.commit], rfl⟩
  · rw [if_neg hother]
    simp [find?, Table.commit, List.find?_append, Ne.symm hother]

/-- As finite maps, a table and what is left of it differ in the entries of the slots that left. -/
theorem Prunes.index {taken : List (Slot ρ)} (h : t.Prunes u taken) (ht : t.IsKeyed) :
    u.index = t.index.without taken :=
  Index.ext (funext (h.find? ht.nodup)) h.creating h.nextId

/-- Removing a slot deletes its entry. -/
theorem IsKeyed.index_remove (h : t.IsKeyed) (id : Nat) :
    (t.remove id).2.index = t.index.put id none := by
  rw [(t.prunes_remove id).index h, remove_fst]
  refine Index.ext (funext fun other => ?_) rfl rfl
  simp only [Index.without, Index.put, Function.update_apply, index]
  cases hs : t.find? id with
  | none =>
    simp only [Option.toList_none, List.map_nil, List.not_mem_nil, if_false]
    split
    · next heq => rw [heq, hs]
    · rfl
  | some s =>
    simp only [Option.toList_some, List.map_cons, List.map_nil, List.mem_singleton,
      (find?_some hs).2]

/-- Changing a slot changes its entry. -/
theorem index_modify {change : Slot ρ → Slot ρ} (hid : ∀ s, (change s).id = s.id) (id : Nat) :
    (t.modify id change).index = t.index.put id ((t.find? id).map change) := by
  refine Index.ext (funext fun other => ?_) rfl rfl
  simp only [Index.put, Function.update_apply, index, find?_modify hid]

/-- A slot that is claimed changes its state, and no other entry changes. -/
theorem index_setState (hs : t.find? id = some s) (state : SlotState) :
    (t.setState id state).index = t.index.put id (some { s with state }) := by
  have hid : ∀ s : Slot ρ, { s with state }.id = s.id := fun _ => rfl
  have hmodify : (t.setState id state).index = _ := index_modify hid id
  rw [hmodify, hs]
  rfl

/-- The slots of a table that meet a condition, in any order, are its entries that meet it. -/
theorem IsKeyed.lists (h : t.IsKeyed) {p : Slot ρ → Bool} {slots : List (Slot ρ)}
    (hperm : slots.Perm (t.slots.filter p)) : t.index.Lists p slots := by
  refine ⟨?_, fun s => ?_⟩
  · have hfilter : ((t.slots.filter p).map (·.id)).Nodup :=
      h.nodup.sublist (List.filter_sublist.map _)
    exact (hperm.map _).nodup_iff.2 hfilter
  · rw [hperm.mem_iff, List.mem_filter]
    exact and_congr_left' ⟨h.find?_self, fun hs => (find?_some hs).1⟩

/-- What is taken out are all idle slots that meet the condition. -/
theorem removeIdleWhere_perm (p : Slot ρ → Bool) (t : Table ρ) :
    (t.removeIdleWhere p).1.Perm (t.slots.filter fun s => s.state == .idle && p s) := by
  let q := fun s : Slot ρ => s.state == .idle && p s
  have hkept : (t.removeIdleWhere p).2.slots.filter q = [] :=
    List.filter_eq_nil_iff.2 fun s hs => by simp [q, fails_of_mem_removeIdleWhere hs]
  have htaken : (t.removeIdleWhere p).1.filter q = (t.removeIdleWhere p).1 :=
    List.filter_eq_self.2 fun s hs => holds_of_mem_removeIdleWhere hs
  have hperm := (t.prunes_removeIdleWhere p).slots.filter q
  rw [List.filter_append, hkept, htaken, List.append_nil] at hperm
  exact hperm.symm

/-- A reservation adds to the reserved capacity what it grants. -/
theorem IsKeyed.does_reserve (h : t.IsKeyed) (wanted max : Nat) :
    (Call.reserve wanted max).Does t.index (.granted (t.reserve wanted max).1)
      (t.reserve wanted max).2.index := by
  refine ⟨_, h.lists (.refl _), ?_⟩
  rw [← List.countP_eq_length_filter]
  exact ⟨rfl, rfl⟩

/-- A commit adds an entry under the next number and uses a reservation up. -/
theorem IsKeyed.does_commit (h : t.IsKeyed) (resource : ρ) (state : SlotState) (now : Instant) :
    (Call.commit resource state now).Does t.index (.issued (t.commit resource state now).1)
      (t.commit resource state now).2.index := by
  refine ⟨rfl, h.find?_nextId, Index.ext (funext fun other => ?_) rfl rfl⟩
  exact (h.find?_commit resource state now other).trans (Function.update_apply ..).symm

/-- A claim puts some idle entry in use, if there is one. -/
theorem IsKeyed.does_claimIdle (h : t.IsKeyed) :
    Call.claimIdle.Does t.index (Call.run t .claimIdle).1 (Call.run t .claimIdle).2.index := by
  simp only [Call.run]
  cases hc : t.claimIdle with
  | none =>
    refine .inl ⟨rfl, rfl, fun id s hs => ?_⟩
    have hfind := List.find?_eq_none.1 (Option.map_eq_none_iff.1 hc) s (find?_some hs).1
    simpa using hfind
  | some claimed =>
    obtain ⟨s, u⟩ := claimed
    obtain ⟨s', hs', hidle, rfl, rfl⟩ := claimIdle_eq_some hc
    have hfind := h.find?_self hs'
    exact .inr ⟨s'.id, s', hfind, hidle, rfl, index_setState hfind .inUse⟩

/-- A claim for a check parks the entry if it is idle. -/
theorem IsKeyed.does_claimForCheck (h : t.IsKeyed) (id : Nat) :
    (Call.claimForCheck id).Does t.index (Call.run t (.claimForCheck id)).1
      (Call.run t (.claimForCheck id)).2.index := by
  simp only [Call.run]
  cases hc : t.claimForCheck id with
  | none =>
    refine .inl ⟨rfl, rfl, fun s hs hidle => ?_⟩
    have hfind : t.find? id = some s := hs
    simp [claimForCheck, hfind, hidle] at hc
  | some claimed =>
    obtain ⟨s, u⟩ := claimed
    obtain ⟨s', hs', rfl, hidle, rfl, rfl⟩ := claimForCheck_eq_some hc
    have hfind := h.find?_self hs'
    exact .inr ⟨s', hfind, hidle, rfl, index_setState hfind .pending⟩

/-- A removal deletes the entry. -/
theorem IsKeyed.does_remove (h : t.IsKeyed) (id : Nat) :
    (Call.remove id).Does t.index (.slot (t.remove id).1) (t.remove id).2.index :=
  ⟨congrArg Answer.slot (remove_fst id t), h.index_remove id⟩

/-- A slot that is marked as broken leaves the table with its mark. -/
theorem IsKeyed.does_invalidate (h : t.IsKeyed) (id : Nat) :
    (Call.invalidate id).Does t.index (.slot (t.invalidate id).1) (t.invalidate id).2.index := by
  let mark := fun s : Slot ρ => { s with state := .invalid }
  have hid : ∀ s, (mark s).id = s.id := fun _ => rfl
  refine ⟨congrArg Answer.slot ?_, ?_⟩
  · calc (t.invalidate id).1
      _ = (t.modify id mark).find? id := remove_fst ..
      _ = (t.find? id).map mark := by rw [find?_modify hid, if_pos rfl]
  · calc (t.invalidate id).2.index
      _ = (t.modify id mark).index.put id none := (h.modify hid).index_remove id
      _ = (t.index.put id ((t.find? id).map mark)).put id none := by rw [index_modify hid]
      _ = t.index.put id none := Index.put_put ..

/-- A removal by a predicate deletes the idle entries that it picks. -/
theorem IsKeyed.does_removeIdleWhere (h : t.IsKeyed) (p : Slot ρ → Bool) :
    (Call.removeIdleWhere p).Does t.index (.slots (t.removeIdleWhere p).1)
      (t.removeIdleWhere p).2.index :=
  ⟨_, h.lists (t.removeIdleWhere_perm p), rfl, (t.prunes_removeIdleWhere p).index h⟩

/-- A removal of the least recently used ones deletes as many idle entries as it can, up to the
number. -/
theorem IsKeyed.does_removeIdleLru (h : t.IsKeyed) (n : Nat) :
    (Call.removeIdleLru n).Does t.index (.slots (t.removeIdleLru n).1)
      (t.removeIdleLru n).2.index := by
  refine ⟨_, h.lists (List.mergeSort_perm _ lruBefore),
    List.pairwise_mergeSort lruBefore_trans lruBefore_total _, ?_, ?_⟩
  · rw [removeIdleLru_fst h.nodup, idleByRecency]
  · rw [← idleByRecency, ← removeIdleLru_fst h.nodup]
    exact (t.prunes_removeIdleLru n).index h

/-- A drain deletes all entries. -/
theorem IsKeyed.does_drain (h : t.IsKeyed) :
    Call.drain.Does t.index (.slots t.drain.1) t.drain.2.index :=
  ⟨t.slots, h.lists (by rw [List.filter_true]), rfl, rfl⟩

/-- Every call does to a table what it does to the finite map of the table. -/
theorem IsKeyed.does (h : t.IsKeyed) (c : Call ρ) (hc : c.IsAllowed t) :
    c.Does t.index (c.run t).1 (c.run t).2.index := by
  cases c with
  | reserve wanted max => exact h.does_reserve wanted max
  | unreserve => exact ⟨rfl, rfl⟩
  | commit resource state now => exact h.does_commit resource state now
  | modify id change => exact ⟨rfl, index_modify hc id⟩
  | claimIdle => exact h.does_claimIdle
  | claimForCheck id => exact h.does_claimForCheck id
  | remove id => exact h.does_remove id
  | invalidate id => exact h.does_invalidate id
  | removeIdleWhere p => exact h.does_removeIdleWhere p
  | removeIdleLru n => exact h.does_removeIdleLru n
  | drain => exact h.does_drain

/-- What the answers so far say of a table. -/
structure Agrees (t : Table ρ) (log : List (Answer ρ)) : Prop extends t.IsKeyed where
  issued : issuedIds log = (List.range' 1 (issuedIds log).length).reverse
  next : t.nextId = (issuedIds log).length + 1
  known : ∀ id ∈ t.ids, id ∈ issuedIds log
  overdrawn : t.overdrawn = 0

namespace Agrees

variable {answer : Answer ρ}

/-- A call that gives out no number adds none. -/
theorem of_subset (h : t.Agrees log) (ha : answer.issued? = none) (hu : u.IsKeyed)
    (hnext : u.nextId = t.nextId) (hids : ∀ id ∈ u.ids, id ∈ t.ids)
    (ho : u.overdrawn = t.overdrawn) : u.Agrees (answer :: log) := by
  have hlog : issuedIds (answer :: log) = issuedIds log := List.filterMap_cons_none ha
  refine ⟨hu, ?_, ?_, fun id hid => ?_, ho.trans h.overdrawn⟩
  · rw [hlog]
    exact h.issued
  · rw [hlog, hnext, h.next]
  · rw [hlog]
    exact h.known id (hids id hid)

/-- The answers agree with a table from which slots were taken. -/
theorem prune {taken : List (Slot ρ)} (h : t.Agrees log) (ha : answer.issued? = none)
    (hprunes : t.Prunes u taken) : u.Agrees (answer :: log) :=
  h.of_subset ha (hprunes.isKeyed h.toIsKeyed) hprunes.nextId
    (fun _ hid => (hprunes.map (·.id)).mem_iff.2 (List.mem_append_right _ hid)) hprunes.overdrawn

/-- The answers agree with a table in which a slot has changed but not its number. -/
theorem modify (h : t.Agrees log) (ha : answer.issued? = none) {change : Slot ρ → Slot ρ}
    (hid : ∀ s, (change s).id = s.id) (id : Nat) : (t.modify id change).Agrees (answer :: log) :=
  h.of_subset ha (h.toIsKeyed.modify hid) rfl (fun _ hmem => ids_modify hid ▸ hmem) rfl

/-- The answers agree with a table in which a slot has another state. -/
theorem setState (h : t.Agrees log) (ha : answer.issued? = none) (id : Nat) (state : SlotState) :
    (t.setState id state).Agrees (answer :: log) := by
  have hid : ∀ s : Slot ρ, { s with state }.id = s.id := fun _ => rfl
  exact h.modify ha hid id

/-- The number of a new slot is the next one. -/
theorem commit (h : t.Agrees log) (hc : 0 < t.creating) (resource : ρ) (state : SlotState)
    (now : Instant) : (t.commit resource state now).2.Agrees (.issued t.nextId :: log) := by
  have hlog : issuedIds (.issued t.nextId :: log) = t.nextId :: issuedIds log := rfl
  refine ⟨h.toIsKeyed.commit resource state now, ?_, ?_, ?_, ?_⟩
  · rw [hlog, List.length_cons, List.range'_concat, List.reverse_append, ← h.issued, h.next]
    simp [Nat.add_comm]
  · rw [hlog, List.length_cons, ← h.next]
    rfl
  · intro id hid
    obtain ⟨s, hs, rfl⟩ := List.mem_map.1 hid
    rcases mem_or_new_of_mem_commit hs with hs | ⟨hnew, -, -⟩
    · exact List.mem_cons_of_mem _ (h.known _ (List.mem_map_of_mem hs))
    · exact hnew ▸ List.mem_cons_self
  · exact (overdrawn_unreserve hc).trans h.overdrawn

/-- Every call keeps a table and the answers in agreement. -/
theorem call (h : t.Agrees log) (c : Call ρ) (hc : c.IsAllowed t) :
    (c.run t).2.Agrees ((c.run t).1 :: log) := by
  cases c with
  | reserve wanted max =>
    exact h.of_subset rfl (h.toIsKeyed.of_eq rfl rfl) rfl (fun _ hid => hid) rfl
  | unreserve =>
    exact h.of_subset rfl (h.toIsKeyed.of_eq rfl rfl) rfl (fun _ hid => hid)
      (overdrawn_unreserve hc)
  | commit resource state now => exact h.commit hc resource state now
  | modify id change => exact h.modify rfl hc id
  | claimIdle =>
    simp only [Call.run]
    cases hclaim : t.claimIdle with
    | none => exact h.prune rfl (.refl t)
    | some claimed =>
      obtain ⟨s, u⟩ := claimed
      obtain ⟨s', -, -, -, rfl⟩ := claimIdle_eq_some hclaim
      exact h.setState rfl s'.id .inUse
  | claimForCheck id =>
    simp only [Call.run]
    cases hclaim : t.claimForCheck id with
    | none => exact h.prune rfl (.refl t)
    | some claimed =>
      obtain ⟨s, u⟩ := claimed
      obtain ⟨s', -, -, -, -, rfl⟩ := claimForCheck_eq_some hclaim
      exact h.setState rfl id .pending
  | remove id => exact h.prune rfl (t.prunes_remove id)
  | invalidate id => exact h.prune rfl (prunes_invalidate h.nodup id)
  | removeIdleWhere p => exact h.prune rfl (t.prunes_removeIdleWhere p)
  | removeIdleLru n => exact h.prune rfl (t.prunes_removeIdleLru n)
  | drain => exact h.prune rfl t.prunes_drain

end Agrees

/-- A table agrees with the answers of the calls that have made it. -/
theorem Built.agrees (h : Built t log) : t.Agrees log := by
  induction h with
  | empty =>
    exact ⟨⟨List.nodup_nil, fun _ hs => absurd hs List.not_mem_nil⟩, rfl, rfl,
      fun _ hid => absurd hid List.not_mem_nil, rfl⟩
  | call _ c hc ih => exact ih.call c hc

/-- **A table is a finite map.** Whatever calls have made a table: the numbers given out are 1, 2, 3
and so on, none of them twice, and the next one is theirs too; it fits 64 bits as long as fewer than
2 ^ 64 - 1 slots were added. The slots have different numbers, which were all given out. A lookup
finds the one slot with its number. And every further call does to the table exactly what it does to
a finite map, and gives the same answer. -/
theorem Built.refines_finite_map (h : Built t log) :
    issuedIds log = (List.range' 1 (issuedIds log).length).reverse ∧
      (issuedIds log).Nodup ∧
      t.nextId = (issuedIds log).length + 1 ∧
      ((issuedIds log).length < 2 ^ 64 - 1 → t.nextId < 2 ^ 64) ∧
      t.ids.Nodup ∧
      (∀ id ∈ t.ids, id < t.nextId ∧ id ∈ issuedIds log) ∧
      t.overdrawn = 0 ∧
      (∀ id s, t.find? id = some s ↔ s ∈ t.slots ∧ s.id = id) ∧
      (∀ id, id ∈ t.idleIds ↔ ∃ s, t.find? id = some s ∧ s.state = .idle) ∧
      ∀ c : Call ρ, c.IsAllowed t → c.Does t.index (c.run t).1 (c.run t).2.index := by
  have hagrees := h.agrees
  have hkeyed := hagrees.toIsKeyed
  have hnodup : (issuedIds log).Nodup := by
    rw [hagrees.issued, List.nodup_reverse]
    exact List.nodup_range'
  refine ⟨hagrees.issued, hnodup, hagrees.next, fun hlength => ?_, hkeyed.nodup, fun id hid => ?_,
    hagrees.overdrawn, fun id s => hkeyed.find?_eq_some_iff, fun id => ?_, hkeyed.does⟩
  · rw [hagrees.next]
    omega
  · obtain ⟨s, hs, rfl⟩ := List.mem_map.1 hid
    exact ⟨hkeyed.fresh s hs, hagrees.known _ hid⟩
  · simp only [idleIds, List.mem_map, List.mem_filter, beq_iff_eq, hkeyed.find?_eq_some_iff]
    grind

/-- Reservations that were made while a slot was broken can add up to more than a word, once the
slot is mended. -/
example :
    let calls : List (Call Nat) := [.reserve countLimit countLimit, .commit 10 .invalid 0,
      .reserve 1 countLimit, .modify 1 fun s => { s with state := .idle }]
    let made := calls.foldl (fun t c => (c.run t).2) ({} : Table Nat)
    made.creating = countLimit ∧ made.live = 0 ∧ (made.reserve 1 countLimit).1 = 1 := by
  decide +kernel

/-- A slot that is added after a drain gets a number that no drained one had, and can be looked up
and removed by it. -/
theorem finite_map_after_drain :
    let calls : List (Call Nat) := [.reserve 3 2, .commit 10 .idle 0, .commit 20 .idle 5,
      .claimIdle, .remove 2, .drain, .reserve 1 2, .commit 30 .idle 7]
    let made := calls.foldl (fun made c => ((c.run made.1).2, (c.run made.1).1 :: made.2))
      (({}, []) : Table Nat × List (Answer Nat))
    Built made.1 made.2 ∧ issuedIds made.2 = [3, 2, 1] ∧ made.1.nextId = 4 ∧
      made.1.find? 3 = some ⟨3, 30, .idle, 7, 7, none⟩ ∧
      (Call.remove 3).Does made.1.index (.slot (some ⟨3, 30, .idle, 7, 7, none⟩))
        (made.1.remove 3).2.index := by
  intro calls made
  have hbuilt : Built made.1 made.2 := (Built.empty : Built ({} : Table Nat) [])
    |>.call (.reserve 3 2) trivial
    |>.call (.commit 10 .idle 0) (show 0 < Table.creating _ by decide)
    |>.call (.commit 20 .idle 5) (show 0 < Table.creating _ by decide)
    |>.call .claimIdle trivial
    |>.call (.remove 2) trivial
    |>.call .drain trivial
    |>.call (.reserve 1 2) trivial
    |>.call (.commit 30 .idle 7) (show 0 < Table.creating _ by decide)
  have hids : issuedIds made.2 = [3, 2, 1] := rfl
  have hmem : ⟨3, 30, .idle, 7, 7, none⟩ ∈ made.1.slots := by decide
  have hanswer : (made.1.remove 3).1 = some ⟨3, 30, .idle, 7, 7, none⟩ := by decide
  obtain ⟨-, -, hnext, -, -, -, -, hfind, -, hdoes⟩ := hbuilt.refines_finite_map
  refine ⟨hbuilt, hids, ?_, (hfind 3 _).2 ⟨hmem, rfl⟩, ?_⟩
  · rw [hnext, hids, List.length_cons, List.length_cons, List.length_singleton]
  · rw [← hanswer]
    exact hdoes (.remove 3) trivial

end Table

end LeasePool
