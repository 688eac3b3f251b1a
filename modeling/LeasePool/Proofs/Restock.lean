import LeasePool.Proofs.Calls
import LeasePool.Proofs.Table

/-!
# Creations in a row

A job that wants some resources calls the factory once for each, and stops at the first call that
fails. What becomes of the creations is settled by the routine of the factory: the successful ones
become slots at the end of the table, and all reservations are used up or given back.
-/

namespace LeasePool

/-- Of at most `n` factory calls in a row `k` succeed, and the next one fails unless they were all
that was wanted. -/
structure Routine.Yields (r : Routine (Behaviour Op Production)) (n k : Nat)
    (failure : Option CreationError) : Prop where
  succeeds : ∀ i < k, (r.nth i).outcome.error? = none
  ending : failure = none ∧ k = n ∨ k < n ∧ failure ≠ none ∧ (r.nth k).outcome.error? = failure

/-- Slots for new resources, with successive numbers, that were created between two moments. -/
structure Fresh (state : SlotState) (id resource : Nat) (since till : Instant)
    (slots : List (Slot Nat)) : Prop where
  ids : slots.map (·.id) = List.range' id slots.length
  resources : slots.map (·.resource) = List.range' resource slots.length
  new : ∀ s ∈ slots, s.state = state ∧ s.lastUsed = s.createdAt ∧ s.lastCheck = none ∧
    since ≤ s.createdAt ∧ s.createdAt ≤ till

/-- The deeds of `k` creations, whose slots are numbered from `id` on, and of one that fails. -/
def creationDeeds (origin : Origin) (id k : Nat) (failure : Option CreationError) : List Entry :=
  (List.range' id k).flatMap (fun id => [.factory origin, .event (.resourceCreated id origin)]) ++
    failure.toList.flatMap fun error =>
      [.factory origin, .event (.resourceCreationFailed origin error.text)]

/-- What creations for `n` reservations leave behind: `fresh` slots, and one more factory call if
that has failed. -/
def Bench.restocked (n : Nat) (failure : Option CreationError) (fresh : List (Slot Nat))
    (clock : Clock) (b : Bench) : Bench :=
  { b with
    user := b.user.afterFactory (failure.elim fresh.length fun _ => fresh.length + 1)
    table := { b.table with
      slots := b.table.slots ++ fresh
      creating := b.table.creating - n
      nextId := b.table.nextId + fresh.length }
    made := b.made + fresh.length
    clock }

/-- The first of several creations comes before the others. -/
theorem creationDeeds_succ (origin : Origin) (id k : Nat) (failure : Option CreationError) :
    creationDeeds origin id (k + 1) failure =
      [.factory origin, .event (.resourceCreated id origin)] ++
        creationDeeds origin (id + 1) k failure := by
  rw [creationDeeds, List.range'_succ, List.flatMap_cons, List.append_assoc]
  rfl

/-- One creation before others. -/
theorem Bench.restocked_cons {b : Bench} {n : Nat} (hn : n + 1 ≤ b.table.creating)
    (failure : Option CreationError) (fresh : List (Slot Nat)) (clock : Clock) (now : Instant) :
    { b with
      user := b.user.afterFactory 1
      made := b.made + 1
      clock := b.clock.read
      table := (b.table.commit b.made .idle now).2 }.restocked n failure fresh clock =
    b.restocked (n + 1) failure (⟨b.table.nextId, b.made, .idle, now, now, none⟩ :: fresh)
      clock := by
  have hover : b.table.unreserve.overdrawn = b.table.overdrawn :=
    Table.overdrawn_unreserve (Nat.lt_of_lt_of_le (Nat.succ_pos n) hn)
  have hcreating : b.table.creating - 1 - n = b.table.creating - (n + 1) := by omega
  have hcalls : 1 + (failure.elim fresh.length fun _ => fresh.length + 1) =
      failure.elim (fresh.length + 1) fun _ => fresh.length + 1 + 1 := by
    cases failure <;> simp only [Option.elim] <;> omega
  have hmade : b.made + 1 + fresh.length = b.made + (fresh.length + 1) := by omega
  have hid : b.table.nextId + 1 + fresh.length = b.table.nextId + (fresh.length + 1) := by omega
  simp only [restocked, Table.commit, UserCode.afterFactory, Routine.skip_skip, hover, hcalls,
    hmade, hid, List.append_assoc, List.singleton_append, List.length_cons]
  simp only [Table.unreserve, hcreating]

/-- A creation that fails ends the others. -/
theorem Bench.restocked_nil (b : Bench) (n : Nat) (error : CreationError) :
    b.restocked (n + 1) (some error) [] b.clock =
      { b with
        user := b.user.afterFactory 1
        table := { b.table with creating := b.table.creating - 1 - n } } := by
  have hcreating : b.table.creating - (n + 1) = b.table.creating - 1 - n := by omega
  simp only [restocked, List.append_nil, hcreating]
  rfl

theorem Bench.restocked_zero (b : Bench) : b.restocked 0 none [] b.clock = b := by
  simp only [restocked, List.append_nil]
  rfl

/-- Creations use up or give back what was reserved for them. -/
theorem Bench.restocked_reserved (b : Bench) (n : Nat) (failure : Option CreationError)
    (fresh : List (Slot Nat)) (clock : Clock) :
    (b.withTable { b.table with creating := b.table.creating + n }).restocked n failure fresh
      clock = b.restocked 0 failure fresh clock := by
  simp only [restocked, withTable, Nat.add_sub_cancel, Nat.sub_zero]

/-- A factory that never fails yields all that is wanted. -/
theorem Routine.Yields.of_succeeds {r : Routine (Behaviour Op Production)} {n k : Nat}
    {failure : Option CreationError} (h : r.Yields n k failure)
    (hr : ∀ i, (r.nth i).outcome = .success) : failure = none ∧ k = n := by
  refine h.ending.resolve_right ?_
  rintro ⟨-, hfails, he⟩
  rw [hr k] at he
  exact hfails he.symm

/-- No more calls succeed than were wanted. -/
theorem Routine.Yields.le_wanted {r : Routine (Behaviour Op Production)} {n k : Nat}
    {failure : Option CreationError} (h : r.Yields n k failure) : k ≤ n := by
  rcases h.ending with ⟨-, hk⟩ | ⟨hk, -⟩
  · exact Nat.le_of_eq hk
  · exact Nat.le_of_lt hk

theorem Clock.now_le_read (c : Clock) : c.now ≤ c.read.now := Nat.le_add_right _ _

/-- A success comes before what the later calls yield. -/
theorem Routine.Yields.cons {r : Routine (Behaviour Op Production)} {n k : Nat}
    {failure : Option CreationError} (hr : (r.nth 0).outcome.error? = none)
    (h : (r.skip 1).Yields n k failure) : r.Yields (n + 1) (k + 1) failure where
  succeeds i hi := by
    cases i with
    | zero => exact hr
    | succ i =>
      have := h.succeeds i (Nat.lt_of_succ_lt_succ hi)
      rwa [nth_skip, Nat.add_comm] at this
  ending := by
    have := h.ending
    rw [nth_skip, Nat.add_comm 1 k] at this
    refine this.imp ?_ ?_
    · rintro ⟨hnone, rfl⟩
      exact ⟨hnone, rfl⟩
    · rintro ⟨hk, hfails⟩
      exact ⟨Nat.succ_lt_succ hk, hfails⟩

theorem Fresh.nil (state : SlotState) (id resource : Nat) (since till : Instant) :
    Fresh state id resource since till [] :=
  ⟨rfl, rfl, fun _ hs => absurd hs List.not_mem_nil⟩

theorem Fresh.mono {state : SlotState} {id resource : Nat} {since since' till : Instant}
    {slots : List (Slot Nat)} (h : Fresh state id resource since' till slots)
    (hs : since ≤ since') : Fresh state id resource since till slots where
  ids := h.ids
  resources := h.resources
  new s hmem := by
    obtain ⟨hstate, hused, hcheck, hsince, htill⟩ := h.new s hmem
    exact ⟨hstate, hused, hcheck, Nat.le_trans hs hsince, htill⟩

/-- One more new slot comes before the later ones. -/
theorem Fresh.cons {state : SlotState} {id resource : Nat} {since now till : Instant}
    {slots : List (Slot Nat)} (h : Fresh state (id + 1) (resource + 1) now till slots)
    (hs : since ≤ now) (ht : now ≤ till) :
    Fresh state id resource since till (⟨id, resource, state, now, now, none⟩ :: slots) where
  ids := by rw [List.map_cons, h.ids, List.length_cons, List.range'_succ]
  resources := by rw [List.map_cons, h.resources, List.length_cons, List.range'_succ]
  new := List.forall_mem_cons.2 ⟨⟨rfl, rfl, rfl, hs, ht⟩, (h.mono hs).new⟩

namespace PoolM

variable {first p : Pool} {deeds : List Entry} {b : Bench} {nested : Op → PoolM Reply}

/-- A new resource enters the table at the end. -/
theorem doing_commit (h : first.Does deeds b p) (resource : Nat) (state : SlotState)
    (origin : Origin) :
    Doing first (commit resource state origin) p fun id q => id = b.table.nextId ∧
      first.Does (deeds ++ [.event (.resourceCreated id origin)])
        { b with
          clock := b.clock.read
          table := (b.table.commit resource state b.clock.read.now).2 } q := by
  refine (doing_now h).bind ?_
  rintro _ q ⟨rfl, hq⟩
  have hentered : first.Does deeds
      { b with
        clock := b.clock.read
        table := (b.table.commit resource state b.clock.read.now).2 }
      { q with
        table := (q.table.commit resource state b.clock.read.now).2
        holdings := (if state = .inUse then [.slot .claim q.table.nextId resource] else []) ++
          (q.holdings.erase (.product resource)).erase .reservation } := by
    exact hq.update (fun c => { c with
      table := (c.table.commit resource state b.clock.read.now).2 }) rfl rfl rfl rfl hq.quiet
  have hid : q.table.nextId = b.table.nextId := congrArg (·.table.nextId) hq.bench
  refine .update ((doing_bump hentered (c := .created) nofun nofun).bind fun _ r hr => ?_)
  refine (doing_emit hr _).bind fun _ s hs => .pure ⟨hid, ?_⟩
  exact hs

/-- A creation whose factory call succeeds. -/
theorem doing_createResource_of_success (h : first.Does deeds b p) {origin : Origin}
    (hn : origin = .acquire → b.table.Lacks first.config.maxCount)
    (hf : (b.user.factory.nth 0).outcome.error? = none) (hopen : b.closed = false)
    (nested : Op → PoolM Reply) (state : SlotState) :
    Doing first (createResource nested state origin) p fun result q =>
      result = .ok (some (b.table.nextId, b.made)) ∧
        first.Does (deeds ++ [.factory origin, .event (.resourceCreated b.table.nextId origin)])
          { b with
            user := b.user.afterFactory 1
            made := b.made + 1
            clock := b.clock.read
            table := (b.table.commit b.made state b.clock.read.now).2 } q := by
  have hnopanic : origin = .acquire → ∀ panic, (b.user.factory.nth 0).outcome ≠ .panic panic := by
    intro _ panic he
    rw [he] at hf
    cases hf
  refine (doing_produce h hn hnopanic hf nested).bind ?_
  rintro _ q ⟨rfl, hq⟩
  have hclosed : q.closed = false := (congrArg (·.closed) hq.bench).trans hopen
  refine .read ?_
  rw [hclosed]
  refine (doing_commit hq b.made state origin).bind ?_
  rintro _ r ⟨rfl, hr⟩
  rw [List.append_assoc] at hr
  exact .pure ⟨rfl, hr⟩

/-- A creation whose factory call fails gives its reservation back. -/
theorem doing_createResource_of_failure (h : first.Does deeds b p) {origin : Origin}
    (hn : origin = .acquire → b.table.Lacks first.config.maxCount)
    (hp : origin = .acquire → ∀ panic, (b.user.factory.nth 0).outcome ≠ .panic panic)
    {error : CreationError} (hf : (b.user.factory.nth 0).outcome.error? = some error)
    (hc : 0 < b.table.creating) (nested : Op → PoolM Reply) (state : SlotState) :
    Doing first (createResource nested state origin) p fun result q =>
      result = .error error ∧
        first.Does
          (deeds ++ [.factory origin, .event (.resourceCreationFailed origin error.text)])
          { b with
            user := b.user.afterFactory 1
            table := { b.table with creating := b.table.creating - 1 } } q := by
  refine (doing_produce h hn hp hf nested).bind ?_
  rintro _ q ⟨rfl, hq⟩
  refine (doing_unreserve hq hc).bind fun _ r hr => ?_
  refine (doing_bump hr (c := .creationFailures) nofun nofun).bind fun _ s hs => ?_
  refine (doing_emit hs _).bind fun _ t ht => ?_
  rw [List.append_assoc] at ht
  exact .pure ⟨rfl, ht⟩

/-- Creations in a row, as long as nothing tells them to stop. -/
theorem doing_fill (h : first.Does deeds b p) {origin : Origin} (ho : origin ≠ .acquire)
    {stops : Pool → Bool} (hs : ∀ q : Pool, q.closed = b.closed → q.keeperSignal = b.keeperSignal →
      q.careSignal = b.careSignal → stops q = false)
    (hopen : b.closed = false) {n : Nat} (hn : n ≤ b.table.creating) (nested : Op → PoolM Reply) :
    Doing first (fill nested origin stops n) p fun result q =>
      ∃ (failure : Option CreationError) (fresh : List (Slot Nat)) (clock : Clock),
        b.user.factory.Yields n fresh.length failure ∧
        Fresh .idle b.table.nextId b.made b.clock.now clock.now fresh ∧
        b.clock.now ≤ clock.now ∧
        result = failure.elim (.ok fresh.length) .error ∧
        first.Does (deeds ++ creationDeeds origin b.table.nextId fresh.length failure)
          (b.restocked n failure fresh clock) q := by
  induction n generalizing p deeds b with
  | zero =>
    refine .pure ⟨none, [], b.clock, ⟨nofun, .inl ⟨rfl, rfl⟩⟩, .nil .., Nat.le_refl _, rfl, ?_⟩
    rw [Bench.restocked_zero]
    simpa [creationDeeds] using h
  | succ n ih =>
    have hgo : stops p = false := by
      apply hs
      · exact congrArg (·.closed) h.bench
      · exact congrArg (·.keeperSignal) h.bench
      · exact congrArg (·.careSignal) h.bench
    refine .read ?_
    rw [hgo]
    cases hf : (b.user.factory.nth 0).outcome.error? with
    | none =>
      refine (doing_createResource_of_success h (fun he => absurd he ho) hf hopen nested
        .idle).bind ?_
      rintro _ q ⟨rfl, hq⟩
      refine (ih hq hs hopen (Nat.le_sub_of_add_le hn)).bind ?_
      rintro _ r ⟨failure, fresh, clock, hyields, hfresh, hle, rfl, hr⟩
      refine .pure ⟨failure, _ :: fresh, clock, hyields.cons hf,
        hfresh.cons b.clock.now_le_read hle, Nat.le_trans b.clock.now_le_read hle, ?_, ?_⟩
      · cases failure <;> rfl
      · rw [List.append_assoc, Bench.restocked_cons hn] at hr
        rw [List.length_cons, creationDeeds_succ]
        exact hr
    | some error =>
      refine (doing_createResource_of_failure h (fun he => absurd he ho) (fun he => absurd he ho) hf
        (Nat.lt_of_lt_of_le (Nat.succ_pos n) hn) nested .idle).bind ?_
      rintro _ q ⟨rfl, hq⟩
      refine (doing_unreserve hq (Nat.le_sub_of_add_le hn)).bind fun _ r hr => ?_
      refine .pure ⟨some error, [], b.clock, ⟨nofun, .inr ⟨Nat.succ_pos n, nofun, hf⟩⟩,
        .nil .., Nat.le_refl _, rfl, ?_⟩
      rw [Bench.restocked_nil]
      exact hr

end PoolM

end LeasePool
