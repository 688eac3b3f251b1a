import LeasePool.Pool.Ownership

/-!
# Specifications of actions

A discipline says what is taken for granted of a pool, and how a pool may change. An action meets a
specification from a pool if it keeps to the discipline, however it ends, and if it leaves a pool as
required when it ends with a value or with a panic. Nothing is required of the pool when the budget
runs out. The rules follow the operations of the monad.
-/

namespace LeasePool

/-- What is taken for granted of a pool, and how a pool may change meanwhile. -/
structure Discipline where
  valid : Pool → Prop
  moves : Pool → Pool → Prop
  refl : ∀ p, moves p p
  trans : ∀ {p q r}, moves p q → moves q r → moves p r
  /-- What is taken for granted stays true. -/
  keep : ∀ {p q}, valid p → moves p q → valid q

namespace PoolM

variable {α β : Type} {d : Discipline}

/-- An action keeps to a discipline, and meets a condition for each way in which it can end. -/
def Spec (d : Discipline) (m : PoolM α) (p : Pool) (done : α → Pool → Prop)
    (raised : Panic → Pool → Prop) : Prop :=
  d.valid p → d.moves p (m p).2 ∧
    match (m p).1 with
    | .done value => done value (m p).2
    | .panicked panic => raised panic (m p).2
    | .exceeded => True

variable {m : PoolM α} {f : α → PoolM β} {p q : Pool} {done done' : α → Pool → Prop}
  {raised raised' : Panic → Pool → Prop} {after : β → Pool → Prop}

/-- Weaker conditions on the ends are met as well. -/
theorem Spec.mono (h : Spec d m p done raised) (hd : ∀ value q, done value q → done' value q)
    (hr : ∀ panic q, raised panic q → raised' panic q) : Spec d m p done' raised' := by
  intro hv
  obtain ⟨hm, he⟩ := h hv
  refine ⟨hm, ?_⟩
  revert he
  cases (m p).1 with
  | done value => exact hd value _
  | panicked panic => exact hr panic _
  | exceeded => exact id

/-- A weaker condition on the values is met as well. -/
theorem Spec.weaken (h : Spec d m p done raised) (hd : ∀ value q, done value q → done' value q) :
    Spec d m p done' raised :=
  h.mono hd fun _ _ => id

/-- What the discipline takes for granted can be used. -/
theorem Spec.given (h : d.valid p → Spec d m p done raised) : Spec d m p done raised :=
  fun hv => h hv hv

/-- The value and the pool in which an action ends are those of its run. -/
theorem Spec.known (h : Spec d m p done raised) :
    Spec d m p (fun value q => done value q ∧ m p = (.done value, q)) raised := by
  intro hv
  obtain ⟨hm, he⟩ := h hv
  refine ⟨hm, ?_⟩
  generalize m p = r at he
  obtain ⟨value | panic | _, q⟩ := r
  · exact ⟨he, rfl⟩
  · exact he
  · trivial

/-- The pool in which an action ends is a move away. -/
theorem Spec.tracked (h : Spec d m p done raised) :
    Spec d m p (fun value q => done value q ∧ d.moves p q) raised := by
  intro hv
  obtain ⟨hm, he⟩ := h hv
  refine ⟨hm, ?_⟩
  revert he
  cases (m p).1 with
  | done value => exact fun he => ⟨he, hm⟩
  | panicked | exceeded => exact id

/-- An action that does not panic owes nothing for a panic. -/
theorem Spec.of_ne_panicked (h : Spec d m p done raised)
    (hm : ∀ panic q, m p ≠ (.panicked panic, q)) : Spec d m p done raised' := by
  intro hv
  obtain ⟨hmoves, he⟩ := h hv
  refine ⟨hmoves, ?_⟩
  generalize m p = r at he hm
  obtain ⟨value | panic | _, q⟩ := r
  · exact he
  · exact absurd rfl (hm panic q)
  · trivial

/-- An action does what another one does after a move. -/
theorem Spec.jump {n : PoolM α} (h : m p = n q) (hm : d.valid p → d.moves p q)
    (hn : Spec d n q done raised) : Spec d m p done raised := by
  intro hv
  obtain ⟨hmoves, he⟩ := hn (d.keep hv (hm hv))
  rw [h]
  exact ⟨d.trans (hm hv) hmoves, he⟩

/-- An action that is known to end with a value. -/
theorem Spec.of_done {value : α} (h : m p = (.done value, q)) (hm : d.moves p q)
    (hd : done value q) : Spec d m p done raised := by
  intro _
  rw [h]
  exact ⟨hm, hd⟩

theorem Spec.pure {value : α} (h : done value p) : Spec d (Pure.pure value) p done raised :=
  .of_done rfl (d.refl p) h

theorem Spec.raise {panic : Panic} (h : raised panic p) :
    Spec d (PoolM.raise panic : PoolM α) p done raised :=
  fun _ => ⟨d.refl p, h⟩

theorem Spec.exceed : Spec d (PoolM.exceed : PoolM α) p done raised :=
  fun _ => ⟨d.refl p, trivial⟩

/-- Two actions in sequence. The second one starts from any pool that the first one may leave. -/
theorem Spec.bind (hm : Spec d m p done raised)
    (hf : ∀ value q, done value q → Spec d (f value) q after raised) :
    Spec d (m >>= f) p after raised := by
  intro hv
  obtain ⟨hmoves, he⟩ := hm hv
  rw [bind_apply]
  generalize m p = r at hmoves he
  obtain ⟨value | panic | _, q⟩ := r
  · obtain ⟨hmoves', he'⟩ := hf value q he (d.keep hv hmoves)
    exact ⟨d.trans hmoves hmoves', he'⟩
  · exact ⟨hmoves, he⟩
  · exact ⟨hmoves, trivial⟩

/-- Looking at the pool before an action. -/
theorem Spec.read {g : Pool → α} (h : Spec d (f (g p)) p after raised) :
    Spec d (PoolM.read g >>= f) p after raised := h

/-- Changing the pool before an action. -/
theorem Spec.change {g : Pool → Pool} {k : Unit → PoolM β} (hm : d.moves p (g p))
    (h : Spec d (k ()) (g p) after raised) : Spec d (PoolM.change g >>= k) p after raised := by
  have hg : Spec d (PoolM.change g) p (fun _ q => q = g p) raised := .of_done rfl hm rfl
  exact hg.bind fun _ _ hq => hq ▸ h

/-- Changing the pool before an action, which gets a value from the change. -/
theorem Spec.update {g : Pool → α × Pool} (hm : d.moves p (g p).2)
    (h : Spec d (f (g p).1) (g p).2 after raised) :
    Spec d (PoolM.update g >>= f) p after raised := by
  have hg : Spec d (PoolM.update g) p (fun value q => value = (g p).1 ∧ q = (g p).2) raised :=
    .of_done rfl hm ⟨rfl, rfl⟩
  refine hg.bind fun value q ⟨hvalue, hq⟩ => ?_
  rw [hvalue, hq]
  exact h

/-- Changing the pool and nothing else. -/
theorem Spec.change_last {g : Pool → Pool} {finish : Unit → Pool → Prop} (hm : d.moves p (g p))
    (h : finish () (g p)) : Spec d (PoolM.change g) p finish raised :=
  .of_done rfl hm h

/-- Changing the pool and ending with a value from the change. -/
theorem Spec.update_last {g : Pool → α × Pool} (hm : d.moves p (g p).2)
    (h : done (g p).1 (g p).2) : Spec d (PoolM.update g) p done raised :=
  .of_done rfl hm h

/-- The value of an action is mapped. -/
theorem Spec.map {g : α → β} (hm : Spec d m p (fun value q => after (g value) q) raised) :
    Spec d (g <$> m) p after raised := by
  rw [map_eq_pure_bind]
  exact hm.bind fun _ _ h => .pure h

/-- A panic is caught, and what the action still held is given back. -/
theorem Spec.attempt {nested : Op → PoolM Reply} (caught : Panic → Pool → Prop)
    (hm : Spec d m p done raised)
    (hc : ∀ panic q, raised panic q →
      Spec d (PoolM.unwind nested (q.holdings.length - p.holdings.length)) q
        (fun _ => caught panic) raised') :
    Spec d (PoolM.attempt nested m) p (fun result q => match result with
      | .ok value => done value q
      | .error panic => caught panic q) raised' := by
  intro hv
  obtain ⟨hmoves, he⟩ := hm hv
  unfold PoolM.attempt
  generalize m p = r at hmoves he
  obtain ⟨value | panic | _, q⟩ := r
  · exact ⟨hmoves, he⟩
  · have hunwound : Spec d (do
        PoolM.unwind nested (q.holdings.length - p.holdings.length)
        Pure.pure (.error panic) : PoolM (Except Panic α)) q (fun result r => match result with
          | .ok value => done value r
          | .error panic => caught panic r) raised' :=
      (hc panic q he).bind fun _ _ hq => .pure hq
    obtain ⟨hmoves', he'⟩ := hunwound (d.keep hv hmoves)
    exact ⟨d.trans hmoves hmoves', he'⟩
  · exact ⟨hmoves, trivial⟩

/-- The pool is changed if an action panics, and the panic goes on. -/
theorem Spec.onPanic {g : Pool → Pool} (hm : Spec d m p done raised)
    (hc : ∀ panic q, d.valid q → raised panic q → d.moves q (g q) ∧ raised' panic (g q)) :
    Spec d (PoolM.onPanic g m) p done raised' := by
  intro hv
  obtain ⟨hmoves, he⟩ := hm hv
  unfold PoolM.onPanic
  generalize m p = r at hmoves he
  obtain ⟨value | panic | _, q⟩ := r
  · exact ⟨hmoves, he⟩
  · obtain ⟨hmoves', he'⟩ := hc panic q (d.keep hv hmoves) he
    exact ⟨d.trans hmoves hmoves', he'⟩
  · exact ⟨hmoves, trivial⟩

/-- An action runs on a thread that is not traced. -/
theorem Spec.elsewhere (hp : d.valid p → d.moves p { p with traced := false })
    (hm : Spec d m { p with traced := false }
      (fun value q => done value { q with traced := p.traced })
      fun panic q => raised panic { q with traced := p.traced })
    (hq : ∀ q, d.valid q → d.moves q { q with traced := p.traced }) :
    Spec d (PoolM.elsewhere m) p done raised := by
  intro hv
  have hv' : d.valid { p with traced := false } := d.keep hv (hp hv)
  obtain ⟨hmoves, he⟩ := hm hv'
  rw [elsewhere_apply]
  refine ⟨d.trans (d.trans (hp hv) hmoves) (hq _ (d.keep hv' hmoves)), ?_⟩
  revert he
  cases (m { p with traced := false }).1 <;> exact id

end PoolM

end LeasePool
