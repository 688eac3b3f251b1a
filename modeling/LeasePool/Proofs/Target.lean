import LeasePool.Proofs.Ends

/-!
# The target of a pool with a load-scaling policy

The target is moved by those who set it and by the callbacks of the policy. The policy computes its
moves in words that do not wrap, and the pool clamps them to its bounds. Under an accepted
configuration the bounds do not cross and fit into a word, so a move ends where whole numbers
without a limit would lead, clamped to the bounds. This is a fact about one callback under any
status, and then about any sequence of callbacks and settings, whatever else of the pool changes
between them.
-/

namespace LeasePool

/-- The targets within the bounds of a configuration. -/
def Config.Bounds (c : Config) (target : Nat) : Prop :=
  c.minCount ≤ target ∧ target ≤ c.maxCount

/-- The target of an accepted configuration is within its bounds. -/
theorem Config.bounds_desiredCount {c : Config} (h : c.validate = .ok ()) :
    c.Bounds c.desiredCount := by
  obtain ⟨-, hmin, hmax⟩ := counts_of_validate h
  exact ⟨hmin, hmax⟩

/-- The number within the bounds of a configuration that is nearest to another one. -/
def Config.nearest (c : Config) (wanted : Nat) : Nat := max c.minCount (min wanted c.maxCount)

/-- The nearest target is within the bounds. -/
theorem Config.bounds_nearest {c : Config} (h : c.minCount ≤ c.maxCount) (wanted : Nat) :
    c.Bounds (c.nearest wanted) := by
  unfold Bounds nearest
  omega

namespace LoadScaling

variable {c : Config} {policy : LoadScaling} {s : Status} {target : Nat}

/-- The target after a callback, if the bounds do not cross. -/
def heeded (policy : LoadScaling) (c : Config) (call : HookCall) (s : Status) (target : Nat) :
    Nat :=
  match policy.request call s target with
  | none => target
  | some wanted => c.nearest wanted

/-- A move up ends where it would end without a largest word. -/
theorem nearest_moved_up (hw : c.maxCount ≤ countLimit) (h : c.Bounds target) :
    c.nearest (policy.moved .up target) = min c.maxCount (target + policy.step) := by
  obtain ⟨hmin, hmax⟩ := h
  simp only [Config.nearest, moved]
  omega

/-- A move down ends where it would end among the whole numbers, which do not stop at zero. -/
theorem nearest_moved_down (h : c.Bounds target) :
    (c.nearest (policy.moved .down target) : Int) =
      max (c.minCount : Int) ((target : Int) - policy.step) := by
  obtain ⟨hmin, hmax⟩ := h
  simp only [Config.nearest, moved]
  omega

/-- Every callback leaves the target within the bounds. -/
theorem bounds_heeded (h : c.Bounds target) (call : HookCall) :
    c.Bounds (policy.heeded c call s target) := by
  unfold heeded
  split
  · exact h
  · exact Config.bounds_nearest (Nat.le_trans h.1 h.2) _

/-- A refused acquisition moves the target up by a step, but not over the maximum. -/
theorem heeded_exhausted (hw : c.maxCount ≤ countLimit) (h : c.Bounds target) :
    policy.heeded c .exhausted s target = min c.maxCount (target + policy.step) :=
  nearest_moved_up hw h

/-- Where a maintenance call moves a target: up by a step above the high watermark, down by a step
below the low one, and nowhere else. The numbers are whole numbers without a limit. -/
inductive Moves (policy : LoadScaling) (c : Config) (s : Status) (target next : Nat) : Prop
  | up (hload : policy.high < load s)
      (hnext : (next : Int) = min (c.maxCount : Int) ((target : Int) + policy.step))
  | down (hhigh : ¬policy.high < load s) (hload : load s < policy.low) (hlive : 0 < s.live)
      (hnext : (next : Int) = max (c.minCount : Int) ((target : Int) - policy.step))
  | stay (hhigh : ¬policy.high < load s) (hlow : ¬(load s < policy.low ∧ 0 < s.live))
      (hnext : next = target)

/-- A maintenance call moves the target as the watermarks say. -/
theorem moves_heeded (hw : c.maxCount ≤ countLimit) (h : c.Bounds target) :
    policy.Moves c s target (policy.heeded c .maintenance s target) := by
  by_cases hhigh : policy.high < load s
  · have hcall : policy.onMaintenance s = some .up := if_pos hhigh
    have hnext : policy.heeded c .maintenance s target = min c.maxCount (target + policy.step) := by
      simp only [heeded, request, hcall, Option.map_some]
      exact nearest_moved_up hw h
    apply Moves.up hhigh
    rw [hnext]
    omega
  · by_cases hlow : load s < policy.low ∧ 0 < s.live
    · have hcall : policy.onMaintenance s = some .down := by
        rw [onMaintenance, if_neg hhigh, if_pos hlow]
      apply Moves.down hhigh hlow.1 hlow.2
      simp only [heeded, request, hcall, Option.map_some]
      exact nearest_moved_down h
    · have hcall : policy.onMaintenance s = none := by
        rw [onMaintenance, if_neg hhigh, if_neg hlow]
      apply Moves.stay hhigh hlow
      simp only [heeded, request, hcall, Option.map_none]

/-- A maintenance call never moves the target down while nothing is live. -/
theorem Moves.live_pos {next : Nat} (h : policy.Moves c s target next) (hb : c.Bounds target)
    (hlt : next < target) : 0 < s.live := by
  obtain ⟨hmin, hmax⟩ := hb
  cases h with
  | up _ hnext => omega
  | down _ _ hlive => exact hlive
  | stay _ _ hnext => omega

end LoadScaling

namespace Pool

/-- What of a pool says where its target is, and how it is moved. -/
structure Helm where
  config : Config
  desired : Nat
  hook : Hook

/-- The helm of a pool at this moment. -/
def helm (p : Pool) : Helm := ⟨p.config, p.desired, p.user.hook⟩

end Pool

namespace PoolM

variable {p : Pool} {policy : LoadScaling}

/-- Setting the target clamps it. Bounds that do not cross are never a reason to panic. -/
theorem ends_setDesired (h : p.config.minCount ≤ p.config.maxCount) (wanted : Nat) :
    Ends (setDesired wanted) p
      (fun target q => target = p.config.nearest wanted ∧ q = { p with desired := target })
      fun _ _ => False := by
  refine .read ?_
  rw [clamp, if_pos h]
  exact .of_done rfl ⟨rfl, rfl⟩

/-- What a callback of the policy does to the target. -/
theorem ends_followPolicy (h : p.config.minCount ≤ p.config.maxCount) (policy : LoadScaling)
    (call : HookCall) :
    Ends (followPolicy policy call) p
      (fun _ q => q.helm =
        { p.helm with desired := policy.heeded p.config call p.status p.desired })
      fun _ _ => False := by
  refine .read (.read ?_)
  unfold LoadScaling.heeded
  cases policy.request call p.status p.desired with
  | none => exact .pure rfl
  | some wanted =>
    refine (ends_setDesired h wanted).bind ?_
    rintro _ _ ⟨rfl, rfl⟩
    split
    · split
      · exact .of_done rfl rfl
      · exact .pure rfl
    · exact .pure rfl

/-- The pool calls a hook that is a policy and nothing else. -/
theorem ends_callHook_scaling (hh : p.user.hook = { scaling := some policy })
    (h : p.config.minCount ≤ p.config.maxCount) (nested : Op → PoolM Reply) (call : HookCall) :
    Ends (callHook nested call) p
      (fun _ q => q.helm =
        { p.helm with desired := policy.heeded p.config call p.status p.desired })
      fun _ _ => False := by
  refine .change (Ends.onPanic (.read ?_) fun _ _ => id)
  have hroutine : (p.note (.hook call)).user.hook.routine? call = none := by
    change p.user.hook.routine? call = none
    rw [hh]
    cases call <;> rfl
  have hscaling : (p.note (.hook call)).user.hook.scaling = some policy := by
    change p.user.hook.scaling = some policy
    rw [hh]
  rw [hroutine, hscaling]
  exact ends_followPolicy (p := p.note (.hook call)) h policy call

end PoolM

namespace Pool

/-- A pool of a configuration whose hook is a load-scaling policy, after any sequence of settings of
its target and of callbacks. Between them all of the pool may change but its helm, so that a
callback may find any status. -/
inductive Governed (nested : Op → PoolM Reply) (policy : LoadScaling) (c : Config) : Pool → Prop
  | start {p : Pool} (hc : p.config = c) (hd : p.desired = c.desiredCount)
      (hh : p.user.hook = { scaling := some policy }) : Governed nested policy c p
  | aside {p q : Pool} (hp : Governed nested policy c p) (h : q.helm = p.helm) :
      Governed nested policy c q
  | set {p : Pool} (hp : Governed nested policy c p) (wanted : Nat) :
      Governed nested policy c (PoolM.setDesired wanted p).2
  | call {p : Pool} (hp : Governed nested policy c p) (call : HookCall) :
      Governed nested policy c (PoolM.callHook nested call p).2

/-- A number of callbacks on refused acquisitions, one after another. Between them all of the pool
may change but its helm. -/
inductive Exhausts (nested : Op → PoolM Reply) (p : Pool) : Nat → Pool → Prop
  | aside {q : Pool} (h : q.helm = p.helm) : Exhausts nested p 0 q
  | call {k : Nat} {q r : Pool} (hq : Exhausts nested p k q)
      (h : r.helm = (PoolM.callHook nested .exhausted q).2.helm) : Exhausts nested p (k + 1) r

/-- How the target of a pool follows the policy and those who set it. -/
structure ObeysPolicy (nested : Op → PoolM Reply) (policy : LoadScaling) (c : Config) (p : Pool) :
    Prop where
  bounds : c.Bounds p.desired
  set : ∀ wanted, PoolM.setDesired wanted p =
    (.done (c.nearest wanted), { p with desired := c.nearest wanted })
  calls : ∀ call, ∃ q, PoolM.callHook nested call p = (.done (), q) ∧ c.Bounds q.desired
  maintenance : ∃ q, PoolM.callHook nested .maintenance p = (.done (), q) ∧
    policy.Moves c p.status p.desired q.desired ∧ (p.status.live = 0 → p.desired ≤ q.desired)
  exhausted : ∀ k q, Exhausts nested p k q →
    q.desired = min c.maxCount (p.desired + k * policy.step)

/-- A pool with a configuration, a hook that is a policy, and a target within the bounds. -/
structure IsOnCourse (policy : LoadScaling) (c : Config) (p : Pool) : Prop where
  config : p.config = c
  hook : p.user.hook = { scaling := some policy }
  bounds : c.Bounds p.desired

namespace IsOnCourse

variable {nested : Op → PoolM Reply} {policy : LoadScaling} {c : Config} {p q : Pool}

/-- Only the helm matters to the course. -/
theorem of_helm (hp : p.IsOnCourse policy c) (h : q.helm = p.helm) : q.IsOnCourse policy c where
  config := (congrArg Helm.config h).trans hp.config
  hook := (congrArg Helm.hook h).trans hp.hook
  bounds := by
    have hdesired : q.desired = p.desired := congrArg Helm.desired h
    rw [hdesired]
    exact hp.bounds

theorem min_le_max (hp : p.IsOnCourse policy c) : p.config.minCount ≤ p.config.maxCount := by
  rw [hp.config]
  exact Nat.le_trans hp.bounds.1 hp.bounds.2

/-- On course, setting the target sets the nearest one within the bounds. -/
theorem set_eq (hp : p.IsOnCourse policy c) (wanted : Nat) : PoolM.setDesired wanted p =
    (.done (c.nearest wanted), { p with desired := c.nearest wanted }) := by
  obtain ⟨target, q, hend, rfl, rfl⟩ :=
    (PoolM.ends_setDesired hp.min_le_max wanted).exists_done fun _ => id
  rw [hend, hp.config]

/-- A callback ends, and the target is where the policy has led it. -/
theorem exists_call (hp : p.IsOnCourse policy c) (nested : Op → PoolM Reply) (call : HookCall) :
    ∃ q, PoolM.callHook nested call p = (.done (), q) ∧ q.IsOnCourse policy c ∧
      q.desired = policy.heeded c call p.status p.desired := by
  obtain ⟨⟨⟩, q, hend, hhelm⟩ :=
    (PoolM.ends_callHook_scaling hp.hook hp.min_le_max nested call).exists_done fun _ => id
  have hdesired : q.desired = policy.heeded c call p.status p.desired := by
    have := congrArg Helm.desired hhelm
    rwa [hp.config] at this
  refine ⟨q, hend, ⟨?_, ?_, ?_⟩, hdesired⟩
  · exact (congrArg Helm.config hhelm).trans hp.config
  · exact (congrArg Helm.hook hhelm).trans hp.hook
  · rw [hdesired]
    exact LoadScaling.bounds_heeded hp.bounds call

/-- A callback of the policy keeps the pool on course. -/
theorem call (hp : p.IsOnCourse policy c) (call : HookCall) :
    (PoolM.callHook nested call p).2.IsOnCourse policy c := by
  obtain ⟨q, hend, hq, -⟩ := hp.exists_call nested call
  rwa [hend]

/-- Callbacks on refused acquisitions add up. -/
theorem desired_of_exhausts (hw : c.maxCount ≤ countLimit) (hp : p.IsOnCourse policy c) {k : Nat}
    (h : Exhausts nested p k q) :
    q.IsOnCourse policy c ∧ q.desired = min c.maxCount (p.desired + k * policy.step) := by
  induction h with
  | aside h =>
    have hdesired := congrArg Helm.desired h
    obtain ⟨hmin, hmax⟩ := hp.bounds
    refine ⟨hp.of_helm h, ?_⟩
    simp only [helm] at hdesired
    omega
  | @call k q r hq h ih =>
    obtain ⟨hcourse, hdesired⟩ := ih
    obtain ⟨next, hend, hnext, hmoved⟩ := hcourse.exists_call nested .exhausted
    rw [hend] at h
    have hr : r.desired = next.desired := congrArg Helm.desired h
    rw [LoadScaling.heeded_exhausted hw hcourse.bounds, hdesired] at hmoved
    refine ⟨hnext.of_helm h, ?_⟩
    rw [hr, hmoved, Nat.succ_mul]
    omega

end IsOnCourse

variable {nested : Op → PoolM Reply} {policy : LoadScaling} {c : Config} {p : Pool}

/-- Whatever happens to a pool with an accepted configuration, it stays on course. -/
theorem Governed.isOnCourse (hv : c.validate = .ok ()) (h : Governed nested policy c p) :
    p.IsOnCourse policy c := by
  induction h with
  | start hc hd hh =>
    refine ⟨hc, hh, ?_⟩
    rw [hd]
    exact Config.bounds_desiredCount hv
  | aside _ h ih => exact ih.of_helm h
  | set _ wanted ih =>
    rw [ih.set_eq wanted]
    exact ⟨ih.config, ih.hook, Config.bounds_nearest (Nat.le_trans ih.bounds.1 ih.bounds.2) wanted⟩
  | call _ call ih => exact ih.call call

/-- Under an accepted configuration the target stays within the bounds, which never cross where it
is clamped. Each callback moves it as told, and many in a row move it as far as one by all their
steps would. -/
theorem Governed.obeys_policy (hv : c.validate = .ok ()) (hw : c.maxCount ≤ countLimit)
    (h : Governed nested policy c p) : ObeysPolicy nested policy c p := by
  have hp := h.isOnCourse hv
  refine ⟨hp.bounds, hp.set_eq, ?_, ?_, ?_⟩
  · intro call
    obtain ⟨q, hend, hq, -⟩ := hp.exists_call nested call
    exact ⟨q, hend, hq.bounds⟩
  · obtain ⟨q, hend, -, hdesired⟩ := hp.exists_call nested .maintenance
    have hmoves := policy.moves_heeded (s := p.status) hw hp.bounds
    rw [← hdesired] at hmoves
    refine ⟨q, hend, hmoves, fun hnone => ?_⟩
    apply Nat.le_of_not_lt
    intro hlt
    have hlive := hmoves.live_pos hp.bounds hlt
    omega
  · intro k q hq
    exact (hp.desired_of_exhausts hw hq).2

/-- A step that is the largest word: the callback on a refused acquisition stops at the maximum. -/
theorem obeys_policy_largest_step :
    let c := Config.withCounts 1 2 5 {}
    let policy := LoadScaling.standard.withStep countLimit
    let nested : Op → PoolM Reply := fun _ => pure .nothing
    let p := new "scaled" c { UserCode.plain with hook := { scaling := some policy } }
    c.validate = .ok () ∧ c.maxCount ≤ countLimit ∧ Governed nested policy c p ∧
      ObeysPolicy nested policy c p ∧ (PoolM.callHook nested .exhausted p).2.desired = 5 := by
  intro c policy nested p
  have hv : c.validate = .ok () := rfl
  have hw : c.maxCount ≤ countLimit := by decide
  have hp : Governed nested policy c p := .start rfl rfl rfl
  have hobeys := hp.obeys_policy hv hw
  refine ⟨hv, hw, hp, hobeys, ?_⟩
  rw [hobeys.exhausted 1 _ (.call (.aside rfl) rfl)]
  decide

end Pool

end LeasePool
