/-!
# Compact lists

A compact list keeps no order for its members: when one is taken out, the last one fills its place.
`takeFirst` takes out the first member that meets a condition. `siftM` takes out every member that
an action picks: it walks the list once, and a member that fills a place is examined there. `sift`
is the same for a condition. All of them only split the list, as the permutation lemmas state.
-/

namespace LeasePool

variable {α : Type}

/-- The last element moved to the front. -/
def lastToFront (xs : List α) : List α :=
  match xs.getLast? with
  | none => []
  | some x => x :: xs.dropLast

/-- Moving the last element to the front keeps the number of elements. -/
@[simp] theorem length_lastToFront (xs : List α) : (lastToFront xs).length = xs.length := by
  unfold lastToFront
  split
  · rename_i h
    rw [List.getLast?_eq_none_iff.1 h]
  · rename_i x h
    have hne : xs ≠ [] := by
      rintro rfl
      cases h
    rw [List.length_cons, List.length_dropLast]
    have := List.length_pos_iff.2 hne
    omega

/-- Moving the last element keeps all elements. -/
theorem lastToFront_perm (xs : List α) : (lastToFront xs).Perm xs := by
  unfold lastToFront
  split
  · rename_i h
    rw [List.getLast?_eq_none_iff.1 h]
  · rename_i x h
    have hne : xs ≠ [] := by
      rintro rfl
      cases h
    have hx : xs.getLast hne = x := by
      rw [List.getLast?_eq_some_getLast hne] at h
      exact Option.some.inj h
    have hs : xs.dropLast ++ [x] = xs := by
      rw [← hx]
      exact List.dropLast_concat_getLast hne
    calc
      (x :: xs.dropLast).Perm (xs.dropLast ++ [x]) := (List.perm_append_singleton x _).symm
      _ = xs := hs

/-- Take out the first element that meets a condition; the last one fills its place. -/
def takeFirst (p : α → Bool) : List α → Option (α × List α)
  | [] => none
  | x :: xs =>
    if p x then some (x, lastToFront xs)
    else (takeFirst p xs).map fun (y, rest) => (y, x :: rest)

/-- Take out every element that an action picks, which is asked about one element after another: the
kept ones in their new order, and the ones taken out in the order in which they were found. -/
def siftM {m : Type → Type} [Monad m] (ask : α → m Bool) : List α → m (List α × List α)
  | [] => pure ([], [])
  | x :: xs => do
    if ← ask x then
      let (kept, taken) ← siftM ask (lastToFront xs)
      pure (kept, x :: taken)
    else
      let (kept, taken) ← siftM ask xs
      pure (x :: kept, taken)
termination_by xs => xs.length
decreasing_by all_goals simp

/-- Take out every element that meets a condition. -/
def sift (p : α → Bool) : List α → List α × List α
  | [] => ([], [])
  | x :: xs =>
    if p x then
      let (kept, taken) := sift p (lastToFront xs)
      (kept, x :: taken)
    else
      let (kept, taken) := sift p xs
      (x :: kept, taken)
termination_by xs => xs.length
decreasing_by all_goals simp

/-- An action without effects picks the elements that meet its condition. -/
theorem siftM_pure {m : Type → Type} [Monad m] [LawfulMonad m] (p : α → Bool) (xs : List α) :
    siftM (fun x => (pure (p x) : m Bool)) xs = pure (sift p xs) := by
  fun_induction sift p xs with
  | case1 => rw [siftM]
  | case2 x xs hx kept taken he ih =>
    rw [siftM, pure_bind, if_pos hx, ih, pure_bind, he]
  | case3 x xs hx kept taken he ih =>
    rw [siftM, pure_bind, if_neg hx, ih, pure_bind, he]

/-- The element taken out and the others are all the elements. -/
theorem takeFirst_perm {p : α → Bool} {xs rest : List α} {x : α}
    (h : takeFirst p xs = some (x, rest)) : xs.Perm (x :: rest) := by
  induction xs generalizing rest with
  | nil => cases h
  | cons y ys ih =>
    unfold takeFirst at h
    split at h
    · obtain ⟨rfl, rfl⟩ := Prod.mk.inj (Option.some.inj h)
      exact (lastToFront_perm ys).symm.cons y
    · obtain ⟨⟨z, zs⟩, hz, he⟩ := Option.map_eq_some_iff.1 h
      obtain ⟨rfl, rfl⟩ := Prod.mk.inj he
      exact ((ih hz).cons y).trans (List.Perm.swap z y zs)

/-- The element taken out meets the condition. -/
theorem takeFirst_holds {p : α → Bool} {xs rest : List α} {x : α}
    (h : takeFirst p xs = some (x, rest)) : p x = true := by
  induction xs generalizing rest with
  | nil => cases h
  | cons y ys ih =>
    unfold takeFirst at h
    split at h
    · obtain ⟨rfl, rfl⟩ := Prod.mk.inj (Option.some.inj h)
      assumption
    · obtain ⟨⟨z, zs⟩, hz, he⟩ := Option.map_eq_some_iff.1 h
      obtain ⟨rfl, rfl⟩ := Prod.mk.inj he
      exact ih hz

/-- Nothing is taken out exactly when no element meets the condition. -/
theorem takeFirst_eq_none_iff {p : α → Bool} {xs : List α} :
    takeFirst p xs = none ↔ ∀ x ∈ xs, p x = false := by
  induction xs with
  | nil => simp [takeFirst]
  | cons y ys ih =>
    unfold takeFirst
    by_cases hy : p y = true
    · simp [hy]
    · simp [hy, ih]

/-- The kept elements and the ones taken out are all the elements. -/
theorem sift_perm (p : α → Bool) (xs : List α) : xs.Perm ((sift p xs).1 ++ (sift p xs).2) := by
  fun_induction sift p xs with
  | case1 => exact List.Perm.refl _
  | case2 x xs hx kept taken he ih =>
    rw [he] at ih
    exact (((lastToFront_perm xs).symm.trans ih).cons x).trans List.perm_middle.symm
  | case3 x xs hx kept taken he ih =>
    rw [he] at ih
    exact ih.cons x

/-- Every element taken out meets the condition. -/
theorem sift_taken_holds {p : α → Bool} {xs : List α} {x : α} (h : x ∈ (sift p xs).2) :
    p x = true := by
  fun_induction sift p xs with
  | case1 => cases h
  | case2 y ys hy kept taken he ih =>
    rcases List.mem_cons.1 h with rfl | h
    · exact hy
    · exact ih (by rw [he]; exact h)
  | case3 y ys hy kept taken he ih => exact ih (by rw [he]; exact h)

/-- No kept element meets the condition. -/
theorem sift_kept_fails {p : α → Bool} {xs : List α} {x : α} (h : x ∈ (sift p xs).1) :
    p x = false := by
  fun_induction sift p xs with
  | case1 => cases h
  | case2 y ys hy kept taken he ih => exact ih (by rw [he]; exact h)
  | case3 y ys hy kept taken he ih =>
    rcases List.mem_cons.1 h with rfl | h
    · exact Bool.eq_false_iff.2 hy
    · exact ih (by rw [he]; exact h)

end LeasePool
