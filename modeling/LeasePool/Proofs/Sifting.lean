import LeasePool.Proofs.FiniteMap

/-!
# Idle slots picked by a predicate

A predicate may have a state of its own, so it matters how often it is asked, and in which order.
The slots that it picks are taken out in as many rounds as there are slots. Each round looks at one
slot, which may have just filled the place of another one, and no slot is looked at twice. The
predicate is asked in the rounds of idle slots, and in no others. What it picks leaves the table,
and all else stays as it is.
-/

namespace LeasePool

variable {σ α : Type}

/-- Questions put to a predicate with a state, one after another, and its answers. A question finds
the state that the one before has left. -/
inductive Asks (ask : α → StateM σ Bool) : σ → List (α × Bool) → σ → Prop
  | nil (before : σ) : Asks ask before [] before
  | cons {x : α} {answer : Bool} {before next after : σ} {rest : List (α × Bool)}
      (hx : (ask x).run before = (answer, next)) (h : Asks ask next rest after) :
      Asks ask before ((x, answer) :: rest) after

/-- The elements that were picked, in the order of the questions. -/
def picked (rounds : List (α × Bool)) : List α := (rounds.filter (·.2)).map Prod.fst

/-- The elements that were passed over, in the order of the questions. -/
def skipped (rounds : List (α × Bool)) : List α := (rounds.filter (!·.2)).map Prod.fst

/-- What happens when a predicate sifts a list: it is asked about each element once. -/
structure Sifts (ask : α → StateM σ Bool) (before : σ) (xs : List α) (rounds : List (α × Bool))
    (ending : (List α × List α) × σ) : Prop where
  asks : Asks ask before rounds ending.2
  once : (rounds.map Prod.fst).Perm xs
  kept : ending.1.1 = skipped rounds
  taken : ending.1.2 = picked rounds

/-- Every element is picked or passed over. -/
theorem picked_append_skipped_perm (rounds : List (α × Bool)) :
    (rounds.map Prod.fst).Perm (picked rounds ++ skipped rounds) := by
  have hsplit := List.filter_append_perm (fun r : α × Bool => r.2) rounds
  have hmap := hsplit.symm.map Prod.fst
  rwa [List.map_append] at hmap

/-- After a round in which the element is picked, the last one comes next. -/
theorem run_siftM_of_pick {ask : α → StateM σ Bool} {x : α} {before next : σ} (xs : List α)
    (hx : (ask x).run before = (true, next)) : (siftM ask (x :: xs)).run before =
      let rest := (siftM ask (lastToFront xs)).run next
      ((rest.1.1, x :: rest.1.2), rest.2) := by
  rw [siftM, StateT.run_bind, hx]
  rfl

/-- After a round in which the element is passed over, the next one comes. -/
theorem run_siftM_of_pass {ask : α → StateM σ Bool} {x : α} {before next : σ} (xs : List α)
    (hx : (ask x).run before = (false, next)) : (siftM ask (x :: xs)).run before =
      let rest := (siftM ask xs).run next
      ((x :: rest.1.1, rest.1.2), rest.2) := by
  rw [siftM, StateT.run_bind, hx]
  rfl

/-- Sifting goes through one round for each element, whatever the predicate answers. -/
theorem exists_sifts (ask : α → StateM σ Bool) (before : σ) (xs : List α) :
    ∃ rounds, Sifts ask before xs rounds ((siftM ask xs).run before) := by
  -- What is left after a round has one element less in either case.
  induction hn : xs.length generalizing xs before with
  | zero =>
    obtain rfl := List.length_eq_zero_iff.1 hn
    rw [siftM]
    exact ⟨[], .nil before, .refl _, rfl, rfl⟩
  | succ n ih =>
    obtain ⟨x, rest, rfl⟩ := List.exists_cons_of_length_eq_add_one hn
    have hrest : rest.length = n := Nat.succ.inj hn
    generalize hx : (ask x).run before = round
    obtain ⟨answer, next⟩ := round
    cases answer with
    | true =>
      have hlast : (lastToFront rest).length = n := by rw [length_lastToFront, hrest]
      obtain ⟨rounds, h⟩ := ih next (lastToFront rest) hlast
      rw [run_siftM_of_pick rest hx]
      exact ⟨(x, true) :: rounds, .cons hx h.asks, (h.once.trans (lastToFront_perm rest)).cons x,
        h.kept, congrArg (x :: ·) h.taken⟩
    | false =>
      obtain ⟨rounds, h⟩ := ih next rest hrest
      rw [run_siftM_of_pass rest hx]
      exact ⟨(x, false) :: rounds, .cons hx h.asks, h.once.cons x, congrArg (x :: ·) h.kept,
        h.taken⟩

/-- A round with a predicate that gives the answers of a condition. -/
theorem exists_round {ask : α → StateM σ Bool} {p : α → Bool}
    (h : ∀ x before, ((ask x).run before).1 = p x) (x : α) (before : σ) :
    ∃ next, (ask x).run before = (p x, next) :=
  ⟨((ask x).run before).2, Prod.ext (h x before) rfl⟩

/-- A predicate that gives the answers of a condition, whatever its state, sifts as the condition
does. -/
theorem run_siftM_fst {ask : α → StateM σ Bool} {p : α → Bool}
    (h : ∀ x before, ((ask x).run before).1 = p x) (before : σ) (xs : List α) :
    ((siftM ask xs).run before).1 = sift p xs := by
  fun_induction sift p xs generalizing before with
  | case1 => rw [siftM]; rfl
  | case2 x xs hx kept taken he ih =>
    obtain ⟨next, hnext⟩ := exists_round h x before
    rw [hx] at hnext
    rw [run_siftM_of_pick xs hnext]
    dsimp only
    rw [ih, he]
  | case3 x xs hx kept taken he ih =>
    obtain ⟨next, hnext⟩ := exists_round h x before
    rw [Bool.eq_false_iff.2 hx] at hnext
    rw [run_siftM_of_pass xs hnext]
    dsimp only
    rw [ih, he]

namespace Table

variable {ρ : Type}

/-- Put a question only if it is about an idle slot. -/
def onIdle (ask : Slot ρ → StateM σ Bool) (s : Slot ρ) : StateM σ Bool :=
  if s.state == .idle then ask s else pure false

/-- The rounds in which the predicate is asked. -/
def questions (rounds : List (Slot ρ × Bool)) : List (Slot ρ × Bool) :=
  rounds.filter (·.1.state == .idle)

/-- What is taken out when a predicate picks idle slots of a table, and what is left of the table.
Each slot is looked at once, and the predicate is asked about those that are idle. -/
structure PicksIdle (ask : Slot ρ → StateM σ Bool) (before : σ) (t : Table ρ)
    (rounds : List (Slot ρ × Bool)) (ending : (List (Slot ρ) × Table ρ) × σ) : Prop where
  looks : (rounds.map Prod.fst).Perm t.slots
  asks : Asks ask before (questions rounds) ending.2
  once : ((questions rounds).map Prod.fst).Perm (t.slots.filter (·.state == .idle))
  spares : ∀ r ∈ rounds, r.1.state ≠ .idle → r.2 = false
  taken : ending.1.1 = picked rounds
  kept : ending.1.2.slots = skipped rounds
  prunes : t.Prunes ending.1.2 ending.1.1

variable {ask : Slot ρ → StateM σ Bool} {before after : σ} {rounds : List (Slot ρ × Bool)}

/-- Only the rounds of idle slots are put to the predicate. -/
theorem asks_questions (h : Asks (onIdle ask) before rounds after) :
    Asks ask before (questions rounds) after := by
  induction h with
  | nil before => exact .nil before
  | @cons s answer before next after rest hs h ih =>
    cases hidle : s.state == .idle with
    | true =>
      have hnext : questions ((s, answer) :: rest) = (s, answer) :: questions rest :=
        List.filter_cons_of_pos hidle
      rw [onIdle, if_pos hidle] at hs
      rw [hnext]
      exact .cons hs ih
    | false =>
      have hbusy : ¬(s.state == .idle) = true := Bool.eq_false_iff.1 hidle
      have hnext : questions ((s, answer) :: rest) = questions rest :=
        List.filter_cons_of_neg hbusy
      rw [onIdle, if_neg hbusy] at hs
      obtain ⟨-, rfl⟩ := Prod.mk.inj hs
      rw [hnext]
      exact ih

/-- No slot is picked that is not idle. -/
theorem answer_of_not_idle (h : Asks (onIdle ask) before rounds after) :
    ∀ r ∈ rounds, r.1.state ≠ .idle → r.2 = false := by
  induction h with
  | nil => intro r hr; cases hr
  | @cons s answer before next after rest hs h ih =>
    intro r hr hbusy
    rcases List.mem_cons.1 hr with rfl | hr
    · rw [onIdle, if_neg (by simpa using hbusy)] at hs
      exact (Prod.mk.inj hs).1.symm
    · exact ih r hr hbusy

/-- The idle slots that a predicate picks are sifted out of the table. -/
theorem run_removeIdleWhereM (ask : Slot ρ → StateM σ Bool) (before : σ) (t : Table ρ) :
    (t.removeIdleWhereM ask).run before =
      ((((siftM (onIdle ask) t.slots).run before).1.2,
        { t with slots := ((siftM (onIdle ask) t.slots).run before).1.1 }),
        ((siftM (onIdle ask) t.slots).run before).2) := rfl

/-- A predicate is asked exactly once about each idle slot, and never about another one. -/
theorem exists_picksIdle (ask : Slot ρ → StateM σ Bool) (before : σ) (t : Table ρ) :
    ∃ rounds, PicksIdle ask before t rounds ((t.removeIdleWhereM ask).run before) := by
  obtain ⟨rounds, h⟩ := exists_sifts (onIdle ask) before t.slots
  rw [run_removeIdleWhereM]
  refine ⟨rounds, ?_⟩
  have honce := h.once.filter (·.state == .idle)
  rw [List.filter_map] at honce
  have hperm : t.slots.Perm (picked rounds ++ skipped rounds) :=
    h.once.symm.trans (picked_append_skipped_perm rounds)
  exact {
    looks := h.once
    asks := asks_questions h.asks
    once := honce
    spares := answer_of_not_idle h.asks
    taken := h.taken
    kept := h.kept
    prunes := ⟨by rw [h.taken, h.kept]; exact hperm, rfl, rfl, rfl⟩ }

/-- A predicate that gives the answers of a condition picks what meets the condition. -/
theorem run_removeIdleWhereM_fst {p : Slot ρ → Bool}
    (h : ∀ s before, ((ask s).run before).1 = p s) (before : σ) (t : Table ρ) :
    ((t.removeIdleWhereM ask).run before).1 = t.removeIdleWhere p := by
  have hidle : ∀ s before, ((onIdle ask s).run before).1 = (s.state == .idle && p s) := by
    intro s before
    rw [onIdle]
    cases s.state == .idle with
    | true => exact h s before
    | false => rfl
  rw [run_removeIdleWhereM, removeIdleWhere_eq, ← run_siftM_fst hidle before t.slots]

/-- What stays are all other slots. -/
theorem kept_removeIdleWhere_perm (p : Slot ρ → Bool) (t : Table ρ) :
    (t.removeIdleWhere p).2.slots.Perm (t.slots.filter fun s => !(s.state == .idle && p s)) := by
  have hnone : (t.removeIdleWhere p).1.filter (fun s => !(s.state == .idle && p s)) = [] := by
    rw [List.filter_eq_nil_iff]
    intro s hs
    simp [holds_of_mem_removeIdleWhere hs]
  have hall : (t.removeIdleWhere p).2.slots.filter (fun s => !(s.state == .idle && p s)) =
      (t.removeIdleWhere p).2.slots := by
    rw [List.filter_eq_self]
    intro s hs
    simp [fails_of_mem_removeIdleWhere hs]
  have hperm := (t.prunes_removeIdleWhere p).slots.filter fun s => !(s.state == .idle && p s)
  rw [List.filter_append, hnone, hall, List.nil_append] at hperm
  exact hperm.symm

/-- Whatever the table and the predicate, each slot is looked at once, and the predicate is asked
about the idle ones, once about each. For a condition, which has no state, it does not matter in
which order they come: the idle slots that meet it leave the table, and all others stay as they are.
-/
theorem removeIdleWhere_visits_once (t : Table ρ) :
    (∀ {σ : Type} (ask : Slot ρ → StateM σ Bool) (before : σ),
      ∃ rounds, PicksIdle ask before t rounds ((t.removeIdleWhereM ask).run before)) ∧
    ∀ p : Slot ρ → Bool,
      (t.removeIdleWhere p).1.Perm (t.slots.filter fun s => s.state == .idle && p s) ∧
      (t.removeIdleWhere p).2.slots.Perm (t.slots.filter fun s => !(s.state == .idle && p s)) ∧
      t.Prunes (t.removeIdleWhere p).2 (t.removeIdleWhere p).1 ∧
      ∀ {σ : Type} (ask : Slot ρ → StateM σ Bool),
        (∀ s before, ((ask s).run before).1 = p s) →
          ∀ before, ((t.removeIdleWhereM ask).run before).1 = t.removeIdleWhere p := by
  refine ⟨fun ask before => exists_picksIdle ask before t, fun p => ⟨?_, ?_, ?_, ?_⟩⟩
  · exact t.removeIdleWhere_perm p
  · exact t.kept_removeIdleWhere_perm p
  · exact t.prunes_removeIdleWhere p
  · intro σ ask h before
    exact run_removeIdleWhereM_fst h before t

end Table

end LeasePool
