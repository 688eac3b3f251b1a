import LeasePool.Proofs.Deeds
import LeasePool.Proofs.Table

/-!
# Actions that end

An action ends from a pool if its budget suffices and a condition holds for the way in which it
ends. The rules follow the operations of the monad. The lemmas on small actions say what they do.
-/

namespace LeasePool.PoolM

variable {α β : Type}

/-- An action ends, and meets a condition for the way in which it does. -/
def Ends (m : PoolM α) (p : Pool) (done : α → Pool → Prop) (raised : Panic → Pool → Prop) : Prop :=
  match m p with
  | (.done value, q) => done value q
  | (.panicked panic, q) => raised panic q
  | (.exceeded, _) => False

variable {m : PoolM α} {f : α → PoolM β} {p q : Pool} {done done' : α → Pool → Prop}
  {raised raised' : Panic → Pool → Prop} {after : β → Pool → Prop}

/-- An action that ends with a value ends. -/
theorem Ends.of_done {value : α} (h : m p = (.done value, q)) (hd : done value q) :
    Ends m p done raised := by
  unfold Ends
  rw [h]
  exact hd

/-- An action that ends with a panic ends. -/
theorem Ends.of_panicked {panic : Panic} (h : m p = (.panicked panic, q)) (hr : raised panic q) :
    Ends m p done raised := by
  unfold Ends
  rw [h]
  exact hr

/-- Weaker conditions are met as well. -/
theorem Ends.mono (h : Ends m p done raised) (hd : ∀ value q, done value q → done' value q)
    (hr : ∀ panic q, raised panic q → raised' panic q) : Ends m p done' raised' := by
  unfold Ends at h ⊢
  generalize m p = ending at h
  obtain ⟨value | panic | _, q⟩ := ending
  · exact hd value q h
  · exact hr panic q h
  · exact h

/-- A weaker condition on the values is met as well. -/
theorem Ends.weaken (h : Ends m p done raised) (hd : ∀ value q, done value q → done' value q) :
    Ends m p done' raised :=
  h.mono hd fun _ _ => id

/-- The value and the pool in which an action ends are those of its run. -/
theorem Ends.known (h : Ends m p done raised) :
    Ends m p (fun value q => done value q ∧ m p = (.done value, q)) raised := by
  unfold Ends at h ⊢
  generalize m p = ending at h
  obtain ⟨value | panic | _, q⟩ := ending
  · exact ⟨h, rfl⟩
  · exact h
  · exact h

theorem Ends.pure {value : α} (h : done value p) : Ends (Pure.pure value) p done raised := h

theorem Ends.raise {panic : Panic} (h : raised panic p) :
    Ends (PoolM.raise panic : PoolM α) p done raised := h

/-- Two actions in sequence. -/
theorem Ends.bind (hm : Ends m p done raised)
    (hf : ∀ value q, done value q → Ends (f value) q after raised) :
    Ends (m >>= f) p after raised := by
  unfold Ends at hm
  generalize hending : m p = ending at hm
  obtain ⟨value | panic | _, q⟩ := ending
  · unfold Ends
    rw [bind_of_done hending]
    exact hf value q hm
  · refine .of_panicked ?_ hm
    rw [bind_apply, hending]
  · exact hm.elim

/-- An action after one that is known to end with a value. -/
theorem Ends.next {value : α} (h : m p = (.done value, q)) (hf : Ends (f value) q after raised) :
    Ends (m >>= f) p after raised := by
  unfold Ends
  rwa [bind_of_done h]

/-- Looking at the pool before an action. -/
theorem Ends.read {g : Pool → α} (h : Ends (f (g p)) p after raised) :
    Ends (PoolM.read g >>= f) p after raised := h

/-- Changing the pool before an action. -/
theorem Ends.change {g : Pool → Pool} {k : Unit → PoolM β} (h : Ends (k ()) (g p) after raised) :
    Ends (PoolM.change g >>= k) p after raised := h

/-- Changing the pool before an action, which gets a value from the change. -/
theorem Ends.update {g : Pool → α × Pool} (h : Ends (f (g p).1) (g p).2 after raised) :
    Ends (PoolM.update g >>= f) p after raised := h

/-- A panic is caught, and what the action still held is given back. -/
theorem Ends.attempt {nested : Op → PoolM Reply} (caught : Panic → Pool → Prop)
    (hm : Ends m p done raised) (hq : ∀ panic q, raised panic q → q.user.IsQuiet)
    (hc : ∀ panic q, raised panic q → caught panic (q.unwindTo p.holdings.length)) :
    Ends (PoolM.attempt nested m) p (fun result q => match result with
      | .ok value => done value q
      | .error panic => caught panic q) raised' := by
  unfold Ends at hm
  generalize hending : m p = ending at hm
  obtain ⟨value | panic | _, q⟩ := ending
  · exact .of_done (attempt_of_done hending) hm
  · exact .of_done (attempt_of_panicked hending (hq panic q hm).destructor_eq_nil) (hc panic q hm)
  · exact hm.elim

/-- The pool is changed if an action panics, and the panic goes on. -/
theorem Ends.onPanic {g : Pool → Pool} (hm : Ends m p done raised)
    (hc : ∀ panic q, raised panic q → raised' panic (g q)) :
    Ends (PoolM.onPanic g m) p done raised' := by
  unfold Ends at hm ⊢
  unfold PoolM.onPanic
  generalize m p = ending at hm
  obtain ⟨value | panic | _, q⟩ := ending
  · exact hm
  · exact hc panic q hm
  · exact hm.elim

/-- What an action that follows others does, unless a hook or a destructor panics. -/
abbrev Doing (first : Pool) (m : PoolM α) (p : Pool) (done : α → Pool → Prop) : Prop :=
  Ends m p done fun _ q => first.Fails q

/-- An action ends with a value unless it panics. -/
theorem Ends.exists_done (h : Ends m p done raised) (hr : ∀ panic, ¬raised panic (m p).2) :
    ∃ value q, m p = (.done value, q) ∧ done value q := by
  unfold Ends at h
  generalize m p = ending at h hr
  obtain ⟨value | panic | _, q⟩ := ending
  · exact ⟨value, q, rfl, h⟩
  · exact absurd h (hr panic)
  · exact h.elim

/-- An action whose panic becomes a value ends as if it was not caught, unless a hook or a
destructor panics. -/
theorem Ends.exists_caught {nested : Op → PoolM Reply} {f : Except Panic α → PoolM α}
    (h : Doing p m p done)
    (hok : ∀ value, f (.ok value) = Pure.pure value)
    (herror : ∀ panic, ∃ value, f (.error panic) = Pure.pure value)
    (hp : ¬p.Panics ((PoolM.attempt nested m >>= f) p).2) :
    ∃ value q, (PoolM.attempt nested m >>= f) p = (.done value, q) ∧ done value q := by
  have hends : Ends (PoolM.attempt nested m >>= f) p (fun value q => done value q ∨ p.Panics q)
      fun _ _ => False := by
    refine (Ends.attempt (fun _ q => p.Panics q) h (fun _ _ hq => hq.quiet)
      fun _ _ hq => hq.panics.unwindTo _).bind ?_
    rintro (panic | value) q hq
    · obtain ⟨value, hvalue⟩ := herror panic
      rw [hvalue]
      exact .pure (.inr hq)
    · rw [hok value]
      exact .pure (.inl hq)
  obtain ⟨value, q, hend, hq⟩ := hends.exists_done fun _ => id
  rw [hend] at hp
  exact ⟨value, q, hend, hq.resolve_right hp⟩

section Ownership

variable {first : Pool} {deeds : List Entry} {b : Bench}

/-- An event is one more deed. -/
theorem doing_emit (h : first.Does deeds b p) (e : Event) :
    Doing first (emit e) p fun _ q => first.Does (deeds ++ [.event e]) b q :=
  .of_done rfl (h.deed rfl nofun)

/-- Writing a trace is no deed. -/
theorem doing_trace (h : first.Does deeds b p) (severity : Severity) (message : String)
    (fields : List (String × FieldValue)) :
    Doing first (trace severity message fields) p fun _ q => first.Does deeds b q :=
  .of_done rfl (h.remark rfl)

/-- Counting something else than acquisitions. -/
theorem doing_addTo (h : first.Does deeds b p) {c : Counter} (ha : c ≠ .acquired)
    (he : c ≠ .exhausted) (n : UInt64) :
    Doing first (change fun p => { p with tally := p.tally.add c n }) p
      fun _ q => first.Does deeds b q := by
  refine .of_done rfl (h.change rfl rfl rfl ?_ h.quiet)
  have hacquired := Tally.get_add_of_ne p.tally n ha.symm
  have hexhausted := Tally.get_add_of_ne p.tally n he.symm
  rw [← h.bench]
  simp only [Tally.get] at hacquired hexhausted
  simp only [Pool.bench, hacquired, hexhausted]

/-- Counting anything but acquisitions and refusals changes nothing for what follows. -/
theorem doing_bump (h : first.Does deeds b p) {c : Counter} (ha : c ≠ .acquired)
    (he : c ≠ .exhausted) : Doing first (bump c) p fun _ q => first.Does deeds b q :=
  doing_addTo h ha he 1

/-- Reading the clock moves it on, and gives what it shows then. -/
theorem doing_now (h : first.Does deeds b p) :
    Doing first now p fun time q => time = b.clock.read.now ∧
      first.Does deeds { b with clock := b.clock.read } q := by
  refine .of_done rfl ⟨congrArg (·.clock.read.now) h.bench, ?_⟩
  exact h.update (fun c => { c with clock := c.clock.read }) rfl rfl rfl rfl h.quiet

/-- A change of what operations hold is not remembered. -/
theorem doing_holdings (h : first.Does deeds b p) (g : Pool → List Holding) :
    Doing first (PoolM.change fun p => { p with holdings := g p }) p
      fun _ q => first.Does deeds b q :=
  .of_done rfl (h.change rfl rfl rfl h.bench h.quiet)

/-- A resource may be destroyed, and its destructor may panic. -/
theorem doing_dispose (h : first.Does deeds b p) (nested : Op → PoolM Reply) (resource : Nat) :
    Doing first (dispose nested resource) p fun _ q => first.Does deeds b q := by
  have hhistory : (p.discard resource).history = p.history := by rw [Pool.discard_eq]
  have hbench : (p.discard resource).bench = b := by
    rw [← h.bench, Pool.discard_eq]
    rfl
  have huser : (p.discard resource).user = p.user := by rw [Pool.discard_eq]
  have hgrows := Pool.destroyed_suffix_discard p resource
  have hbrittle : (p.discard resource).brittle ⊆ p.brittle := by
    unfold Pool.discard
    split
    · exact List.Subset.refl _
    · exact List.erase_subset
  have hending : dispose nested resource p = _ :=
    dispose_apply h.isQuiet.destructor_eq_nil resource
  split at hending
  · next hb =>
    refine .of_panicked hending ⟨?_, huser ▸ h.isQuiet⟩
    refine Pool.panics_of_destroyed (r := p) (h.brittle hb.2) ?_ h.destroyed
    simp only [Pool.discard, Pool.settle, hb.1, Bool.false_eq_true, if_false]
  · exact .of_done hending {
      bench := hbench
      history := hhistory ▸ h.history
      deeds := (Pool.deedsSince_of_eq hhistory).trans h.deeds
      destroyed := h.destroyed.trans hgrows
      brittle := List.Subset.trans hbrittle h.brittle
      quiet := h.quiet
      needed := by
        have := h.needed
        rw [Pool.recordsSince] at this ⊢
        rwa [hhistory] }

/-- Where destructors run nothing, letting go of a holding does nothing else, unless a destructor
panics. -/
theorem doing_letGo (h : first.Does deeds b p) (nested : Op → PoolM Reply) (held : Holding) :
    Doing first (letGo nested held) p fun _ q => first.Does deeds b q := by
  refine (doing_holdings h fun p => p.holdings.erase held).bind fun _ q hq => ?_
  cases held.resource? with
  | some resource => exact doing_dispose hq nested resource
  | none => exact .pure hq

/-- Slots that have left the table are destroyed one by one. -/
theorem doing_destroy (h : first.Does deeds b p) (nested : Op → PoolM Reply)
    (reason : DestroyReason) (slots : List (Slot Nat)) :
    Doing first (destroy nested reason slots) p fun _ q => first.Does
      (deeds ++ slots.map fun s => .event (.resourceDestroyed s.id reason)) b q := by
  induction slots generalizing p deeds with
  | nil => exact .pure (by rwa [List.map_nil, List.append_nil])
  | cons s rest ih =>
    have hone : Doing first (destroyOne nested reason s) p fun _ q =>
        first.Does (deeds ++ [.event (.resourceDestroyed s.id reason)]) b q := by
      refine (doing_bump h (c := .destroyed) nofun nofun).bind fun _ q hq => ?_
      exact (doing_emit hq _).bind fun _ r hr => doing_letGo hr nested _
    refine hone.bind fun _ q hq => (ih hq).weaken fun _ r hr => ?_
    rwa [List.append_assoc] at hr

/-- Slots that are taken out leave the table. -/
theorem doing_takeOut (h : first.Does deeds b p) (reason : DestroyReason)
    (f : Table Nat → List (Slot Nat) × Table Nat) :
    Doing first (takeOut reason f) p fun slots q => slots = (f b.table).1 ∧
      first.Does deeds (b.withTable (f b.table).2) q := by
  refine .of_done rfl ⟨congrArg (fun c => (f c.table).1) h.bench, ?_⟩
  exact h.update (fun c => c.withTable (f c.table).2) rfl rfl rfl rfl h.quiet

/-- A slot that is taken out as broken leaves the table. -/
theorem doing_takeOutBroken (h : first.Does deeds b p) (tenure : Tenure) (id resource : Nat)
    (reason : DestroyReason) :
    Doing first (takeOutBroken tenure id resource reason) p fun slots q =>
      slots = (b.table.invalidate id).1.toList ∧
        first.Does deeds (b.withTable (b.table.invalidate id).2) q := by
  refine (doing_holdings h fun p => (p.disown tenure id resource).holdings).bind fun _ q hq => ?_
  exact doing_takeOut hq reason _

/-- As much capacity is reserved as the maximum leaves. -/
theorem doing_reserve (h : first.Does deeds b p) (ht : b.table.Suits b.config.maxCount)
    (origin : Origin) (wanted : Nat) :
    Doing first (reserve origin wanted) p fun granted q =>
      granted = min wanted (b.config.maxCount - b.table.live) ∧
        first.Does deeds
          (b.withTable { b.table with creating := b.table.creating + granted }) q := by
  have htable : p.table = b.table := congrArg Bench.table h.bench
  have hconfig : p.config = b.config := congrArg Bench.config h.bench
  let granted := (p.table.reserve wanted p.config.maxCount).1
  have hreserve : p.table.reserve wanted p.config.maxCount =
      (granted, { p.table with creating := p.table.creating + granted }) := by
    simp only [granted, htable, hconfig, ht.reserve_eq]
  have hnext : first.Does deeds
      (b.withTable { b.table with creating := b.table.creating + granted })
      { p with
        table := (p.table.reserve wanted p.config.maxCount).2
        holdings := List.replicate granted .reservation ++ p.holdings } := by
    refine h.change rfl rfl rfl ?_ h.quiet
    rw [hreserve, ← h.bench]
    rfl
  refine .of_done rfl ⟨?_, hnext.remark (e := .reserved origin granted) rfl⟩
  rw [← h.bench]
  rfl

/-- Reservations that are counted are given back. -/
theorem doing_unreserve (h : first.Does deeds b p) {n : Nat} (hn : n ≤ b.table.creating) :
    Doing first (unreserve n) p fun _ q => first.Does deeds
      (b.withTable { b.table with creating := b.table.creating - n }) q := by
  induction n generalizing p b with
  | zero => exact .pure h
  | succ n ih =>
    have hone : first.Does deeds (b.withTable { b.table with creating := b.table.creating - 1 })
        ((p.onTable (·.unreserve)).unhold .reservation) := by
      refine h.change rfl rfl rfl ?_ h.quiet
      have hpos : p.table.creating ≠ 0 := by
        have : p.table = b.table := by rw [← h.bench]; rfl
        rw [this]
        omega
      rw [← h.bench]
      simp only [Pool.bench, Bench.withTable, Pool.onTable, Pool.unhold, Table.unreserve,
        if_neg hpos]
    refine .change ((ih hone (Nat.le_sub_of_add_le hn)).weaken fun _ q hq => ?_)
    have hsub : b.table.creating - 1 - n = b.table.creating - (n + 1) := by omega
    rw [← hsub]
    exact hq

end Ownership

end LeasePool.PoolM
