import LeasePool.Proofs.Table
import Mathlib.Data.Prod.Lex

/-!
# The least recently used slots

A table whose slots have different numbers can be read by number: a lookup finds the one slot with a
number, and taking slots out takes their numbers out and leaves what all others find. So the idle
slots that are picked by number, out of a list sorted beforehand, are those of the sorted list,
however the table is rearranged between two of them.
-/

namespace LeasePool

/-- When a slot was last used, with its number to decide between equal times. -/
def Slot.recency {ρ : Type} (s : Slot ρ) : Instant ×ₗ Nat := toLex (s.lastUsed, s.id)

namespace Table

variable {ρ : Type}

/-- What is taken out when up to `n` idle slots leave a table, the least recently used ones first,
and what is left of the table. -/
structure TakesOldest (n : Nat) (t : Table ρ) (taken : List (Slot ρ)) (u : Table ρ) : Prop
    extends t.Prunes u taken where
  length : taken.length = min n (t.count .idle)
  idle : ∀ s ∈ taken, s.state = .idle
  sorted : taken.Pairwise fun s s' => s.recency < s'.recency
  older : ∀ s ∈ taken, ∀ s' ∈ u.slots, s'.state = .idle → s.recency < s'.recency
  stays : ∀ s, s ∈ u.slots ↔ s ∈ t.slots ∧ s ∉ taken

variable {t u : Table ρ} {taken : List (Slot ρ)} {id : Nat} {s : Slot ρ}

/-- A lookup finds the one slot with a number. -/
theorem find?_eq_some_iff (hn : t.ids.Nodup) : t.find? id = some s ↔ s ∈ t.slots ∧ s.id = id := by
  refine ⟨find?_some, ?_⟩
  rintro ⟨hs, rfl⟩
  obtain ⟨s', hs'⟩ : ∃ s', t.find? s.id = some s' := by
    rw [← Option.isSome_iff_exists, find?, List.find?_isSome]
    exact ⟨s, hs, by simp⟩
  obtain ⟨hmem, hid⟩ := find?_some hs'
  rw [hs', List.inj_on_of_nodup_map hn hmem hs hid]

/-- A slot is found by its own number. -/
theorem find?_self (hn : t.ids.Nodup) (hs : s ∈ t.slots) : t.find? s.id = some s :=
  (find?_eq_some_iff hn).2 ⟨hs, rfl⟩

/-- The numbers of the slots that leave are not among those that stay. -/
theorem Prunes.id_ne (h : t.Prunes u taken) (hn : t.ids.Nodup) {s' : Slot ρ} (hs : s ∈ taken)
    (hs' : s' ∈ u.slots) : s.id ≠ s'.id := by
  have hnodup : (taken.map (·.id) ++ u.ids).Nodup := (h.map (·.id)).nodup_iff.1 hn
  exact (List.nodup_append.1 hnodup).2.2 _ (List.mem_map_of_mem hs) _ (List.mem_map_of_mem hs')

/-- The slots that stay are the others. -/
theorem Prunes.mem_iff (h : t.Prunes u taken) (hn : t.ids.Nodup) :
    s ∈ u.slots ↔ s ∈ t.slots ∧ s ∉ taken := by
  rw [h.slots.mem_iff, List.mem_append]
  constructor
  · intro hs
    exact ⟨.inr hs, fun htaken => h.id_ne hn htaken hs rfl⟩
  · rintro ⟨htaken | hs, hnot⟩
    · exact absurd htaken hnot
    · exact hs

/-- Slots that leave a table take their entries along, and no others. -/
theorem Prunes.find? (h : t.Prunes u taken) (hn : t.ids.Nodup) (id : Nat) :
    u.find? id = if id ∈ taken.map (·.id) then none else t.find? id := by
  split
  · next hid =>
    obtain ⟨s, hs, rfl⟩ := List.mem_map.1 hid
    refine List.find?_eq_none.2 fun s' hs' => ?_
    simpa using (h.id_ne hn hs hs').symm
  · next hid =>
    refine Option.ext fun s => ?_
    rw [find?_eq_some_iff (h.nodup hn), find?_eq_some_iff hn, h.mem_iff hn]
    constructor
    · exact fun ⟨⟨hs, _⟩, heq⟩ => ⟨hs, heq⟩
    · rintro ⟨hs, rfl⟩
      exact ⟨⟨hs, fun htaken => hid (List.mem_map_of_mem htaken)⟩, rfl⟩

/-- The first element that meets a condition is the one that is taken out. -/
theorem takeFirst_map_fst {α : Type} (p : α → Bool) (xs : List α) :
    (takeFirst p xs).map Prod.fst = xs.find? p := by
  induction xs with
  | nil => rfl
  | cons x xs ih =>
    unfold takeFirst
    rw [List.find?_cons]
    cases p x with
    | true => rfl
    | false => simpa [Option.map_map, Function.comp_def] using ih

/-- What is removed is what would be found. -/
theorem remove_fst (id : Nat) (t : Table ρ) : (t.remove id).1 = t.find? id := by
  unfold remove find?
  rw [← takeFirst_map_fst]
  cases takeFirst (·.id == id) t.slots <;> rfl

/-- Removing a slot leaves what the other numbers find. -/
theorem find?_remove (hn : t.ids.Nodup) {other : Nat} (hne : other ≠ id) :
    (t.remove id).2.find? other = t.find? other := by
  rw [(t.prunes_remove id).find? hn, if_neg]
  intro hmem
  obtain ⟨s, hs, rfl⟩ := List.mem_map.1 hmem
  exact hne (id_of_remove (Option.mem_toList.1 hs))

/-- Removing slots one after another takes out what their numbers find beforehand. -/
theorem removeAll_fst (hn : t.ids.Nodup) {ids : List Nat} (hids : ids.Nodup) :
    (t.removeAll ids).1 = ids.filterMap t.find? := by
  induction ids generalizing t with
  | nil => rfl
  | cons id ids ih =>
    obtain ⟨hid, hids⟩ := List.nodup_cons.1 hids
    have hothers : ids.filterMap (t.remove id).2.find? = ids.filterMap t.find? := by
      refine List.filterMap_congr fun other hother => find?_remove hn ?_
      exact fun heq => hid (heq ▸ hother)
    have hrest := ih ((t.prunes_remove id).nodup hn) hids
    simp only [removeAll, hrest, hothers, remove_fst]
    cases hs : t.find? id with
    | none => simp [hs]
    | some s => simp [hs]

/-- The order by recency compares the last use, and then the numbers. -/
theorem lruBefore_iff {s s' : Slot ρ} : lruBefore s s' = true ↔ s.recency ≤ s'.recency := by
  simp only [lruBefore, Slot.recency, Prod.Lex.toLex_le_toLex, Bool.or_eq_true, Bool.and_eq_true,
    decide_eq_true_eq, beq_iff_eq]

/-- The order by recency is transitive. -/
theorem lruBefore_trans (a b c : Slot ρ) (hab : lruBefore a b = true)
    (hbc : lruBefore b c = true) : lruBefore a c = true := by
  rw [lruBefore_iff] at *
  exact hab.trans hbc

/-- The order by recency is total. -/
theorem lruBefore_total (a b : Slot ρ) : (lruBefore a b || lruBefore b a) = true := by
  rw [Bool.or_eq_true, lruBefore_iff, lruBefore_iff]
  exact le_total ..

/-- The idle slots of a table, the least recently used ones first. -/
def idleByRecency (t : Table ρ) : List (Slot ρ) :=
  (t.slots.filter (·.state == .idle)).mergeSort lruBefore

/-- The idle slots by recency are the idle slots. -/
theorem idleByRecency_perm (t : Table ρ) :
    t.idleByRecency.Perm (t.slots.filter (·.state == .idle)) :=
  List.mergeSort_perm ..

/-- A slot is among the idle slots by recency if it is idle. -/
theorem mem_idleByRecency : s ∈ t.idleByRecency ↔ s ∈ t.slots ∧ s.state = .idle := by
  rw [t.idleByRecency_perm.mem_iff, List.mem_filter, beq_iff_eq]

/-- As many slots are listed by recency as are idle. -/
theorem length_idleByRecency (t : Table ρ) : t.idleByRecency.length = t.count .idle := by
  rw [t.idleByRecency_perm.length_eq, count, List.countP_eq_length_filter]

/-- No slot is listed twice by recency. -/
theorem nodup_idleByRecency (hn : t.ids.Nodup) : (t.idleByRecency.map (·.id)).Nodup := by
  have hidle : ((t.slots.filter (·.state == .idle)).map (·.id)).Nodup :=
    hn.sublist (List.filter_sublist.map _)
  exact (t.idleByRecency_perm.map _).nodup_iff.2 hidle

/-- Since no two slots have the same number, their recencies are all different. -/
theorem sorted_idleByRecency (hn : t.ids.Nodup) :
    t.idleByRecency.Pairwise fun s s' => s.recency < s'.recency := by
  have hsorted : t.idleByRecency.Pairwise (lruBefore · ·) :=
    List.pairwise_mergeSort lruBefore_trans lruBefore_total _
  have hdiffer : t.idleByRecency.Pairwise (·.id ≠ ·.id) :=
    List.pairwise_map.1 (nodup_idleByRecency hn)
  refine .imp₂ (fun s s' hle hne => ?_) hsorted hdiffer
  refine lt_of_le_of_ne (lruBefore_iff.1 hle) fun heq => ?_
  exact hne (congrArg (fun recency => (ofLex recency).2) heq)

/-- The idle slots that are taken out are those that have not been used for longest. -/
theorem removeIdleLru_fst (hn : t.ids.Nodup) (n : Nat) :
    (t.removeIdleLru n).1 = t.idleByRecency.take n := by
  have hids : ((t.idleByRecency.take n).map (·.id)).Nodup :=
    (nodup_idleByRecency hn).sublist ((List.take_sublist ..).map _)
  calc (t.removeIdleLru n).1
    _ = ((t.idleByRecency.take n).map (·.id)).filterMap t.find? := removeAll_fst hn hids
    _ = (t.idleByRecency.take n).filterMap some := by
      rw [List.filterMap_map]
      refine List.filterMap_congr fun s hs => find?_self hn ?_
      exact (mem_idleByRecency.1 (List.mem_of_mem_take hs)).1
    _ = t.idleByRecency.take n := List.filterMap_some

/-- No more idle slots are taken out than there are. -/
theorem length_removeIdleLru (hn : t.ids.Nodup) (n : Nat) :
    (t.removeIdleLru n).1.length = min n (t.count .idle) := by
  rw [removeIdleLru_fst hn, List.length_take, length_idleByRecency]

/-- Only idle slots are taken out. -/
theorem idle_of_mem_removeIdleLru (hn : t.ids.Nodup) {n : Nat} (hs : s ∈ (t.removeIdleLru n).1) :
    s.state = .idle := by
  rw [removeIdleLru_fst hn] at hs
  exact (mem_idleByRecency.1 (List.mem_of_mem_take hs)).2

/-- An idle slot that stays was used later than those that are taken out. -/
theorem recency_lt_of_removeIdleLru (hn : t.ids.Nodup) {n : Nat} {s' : Slot ρ}
    (hs : s ∈ (t.removeIdleLru n).1) (hs' : s' ∈ (t.removeIdleLru n).2.slots)
    (hidle : s'.state = .idle) : s.recency < s'.recency := by
  have hprunes := t.prunes_removeIdleLru n
  have hmem : s' ∈ t.idleByRecency := mem_idleByRecency.2 ⟨hprunes.mem hs', hidle⟩
  have hlater : s' ∈ t.idleByRecency.drop n := by
    rw [← List.take_append_drop n t.idleByRecency, ← removeIdleLru_fst hn, List.mem_append] at hmem
    refine hmem.resolve_left fun htaken => ?_
    exact hprunes.id_ne hn htaken hs' rfl
  have hsorted := sorted_idleByRecency hn
  rw [← List.take_append_drop n t.idleByRecency, List.pairwise_append] at hsorted
  rw [removeIdleLru_fst hn] at hs
  exact hsorted.2.2 s hs s' hlater

/-- Whatever the states and times of slots with different numbers: as many idle ones as are wanted,
or all of them, leave the table in the order of their last use, and every other slot stays as it is.
-/
theorem removeIdleLru_takes_oldest (hn : t.ids.Nodup) (n : Nat) :
    TakesOldest n t (t.removeIdleLru n).1 (t.removeIdleLru n).2 := by
  have hprunes := t.prunes_removeIdleLru n
  have hsorted := (sorted_idleByRecency hn).sublist (List.take_sublist n _)
  refine ⟨hprunes, length_removeIdleLru hn n, ?_, ?_, ?_, fun s => hprunes.mem_iff hn⟩
  · intro s hs
    exact idle_of_mem_removeIdleLru hn hs
  · rwa [removeIdleLru_fst hn]
  · intro s hs s' hs' hidle
    exact recency_lt_of_removeIdleLru hn hs hs' hidle

/-- Two idle slots were last used at the same time, and the smaller number decides. The slot in use
stays, although it was used before them. -/
theorem takes_oldest_among_ties :
    let t : Table Nat := { slots := [⟨7, 70, .idle, 0, 5, none⟩, ⟨9, 90, .inUse, 0, 1, none⟩,
      ⟨2, 20, .idle, 0, 5, some 4⟩, ⟨4, 40, .idle, 0, 3, none⟩] }
    TakesOldest 2 t [⟨4, 40, .idle, 0, 3, none⟩, ⟨2, 20, .idle, 0, 5, some 4⟩]
      { t with slots := [⟨7, 70, .idle, 0, 5, none⟩, ⟨9, 90, .inUse, 0, 1, none⟩] } := by
  intro t
  have htakes := removeIdleLru_takes_oldest (t := t) (by decide) 2
  have hremove : t.removeIdleLru 2 = ([⟨4, 40, .idle, 0, 3, none⟩, ⟨2, 20, .idle, 0, 5, some 4⟩],
      { t with slots := [⟨7, 70, .idle, 0, 5, none⟩, ⟨9, 90, .inUse, 0, 1, none⟩] }) := by
    simp [t, removeIdleLru, removeAll, remove, takeFirst, lastToFront, lruBefore, List.mergeSort,
      List.MergeSort.Internal.splitInTwo]
  rwa [hremove] at htakes

end Table

end LeasePool
