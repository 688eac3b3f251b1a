import LeasePool.Proofs.Stack.Jobs

/-!
# The stack under whole operations

Every run of a public operation is a sequence of steps, which leaves the stack as it found it. The
induction is on the budget: operations inside calls of user code have a smaller one.
-/

namespace LeasePool

/-- A wait leaves a stopped signal stopped. -/
theorem Signal.isStopped_of_waitAlone {s after : Signal} {interval : Duration} {wake : Wake}
    (h : s.waitAlone interval = .ok (wake, after)) (hs : s.isStopped = true) :
    after.isStopped = true := by
  unfold Signal.waitAlone at h
  cases hd : Instant.deadline 0 interval with
  | error panic =>
    rw [hd] at h
    cases h
  | ok deadline =>
    rw [hd] at h
    simp only [bind, Except.bind, look_of_isStopped hs] at h
    cases h
    exact hs

namespace PoolM

open Pool (Hosts Admits)

variable {d : Discipline} {nested : Op → PoolM Reply} {p : Pool} {H : List Holding}

/-- An operation on the lease of a handle. -/
theorem balanced_withLease {handle : String} {f : Lease → PoolM Reply}
    (hf : ∀ p lease, lease ∈ p.leases → Spec d (f lease) p
      (fun _ q => q.holdings = p.holdings) fun _ q => q.Strewn p.holdings) :
    Balanced d (withLease handle f) := by
  intro p
  apply Spec.read
  cases hl : p.lease? handle with
  | none => exact .pure rfl
  | some lease =>
    obtain ⟨_, -, hfind⟩ := Option.bind_eq_some_iff.1 hl
    exact hf p lease (List.mem_of_find?_eq_some hfind)

section Hosted

variable [Hosts d]

/-- The thread on which an action runs does not matter to the stack. -/
theorem spec_elsewhere {α : Type} {m : PoolM α} {K : α → List Holding}
    (hm : Spec d m { p with traced := false } (fun value q => q.holdings = K value)
      fun _ q => q.Strewn H) :
    Spec d (elsewhere m) p (fun value q => q.holdings = K value) fun _ q => q.Strewn H := by
  refine .elsewhere (fun hv => Hosts.step hv ⟨.aside (.traced false) rfl, rfl⟩) ?_
    fun q hv => Hosts.step hv ⟨.aside (.traced p.traced) rfl, rfl⟩
  exact hm.mono (fun _ _ h => h) fun _ q h => h.mono rfl (fun _ => id) fun _ => id

/-- A balanced action is balanced on another thread. -/
theorem Balanced.elsewhere {α : Type} {m : PoolM α} (hm : Balanced d m) :
    Balanced d (PoolM.elsewhere m) := by
  intro p
  have hp : { p with traced := false }.holdings = p.holdings := rfl
  exact spec_elsewhere (hm.from hp)

theorem balanced_awaitKeeper (nested : Op → PoolM Reply) (rounds : Nat) :
    Balanced d (perform nested rounds .awaitKeeper) := by
  intro p
  apply Spec.read
  cases hw : p.keeperSignal.waitAlone ⟨0⟩ with
  | error panic => exact .raise (.of_eq rfl)
  | ok result =>
    obtain ⟨wake, after⟩ := result
    rw [ofExcept_ok, pure_bind]
    exact .step (.keeperSignal after (Signal.isStopped_of_waitAlone hw)) (.pure rfl)

/-- When an operation ends, it leaves what it leaves for sure. -/
theorem completes_of_attempt {op : Op} {ending : Except Panic Reply} {q : Pool} (rounds : Nat)
    (h : attempt nested (perform nested rounds op) p = (.done ending, q)) :
    q.sight.Completes op := by
  have hq : (attempt nested (perform nested rounds op) p).2 = q := congrArg Prod.snd h
  cases op with
  | close =>
    rw [← hq]
    rfl
  | _ => exact trivial

/-- The body of an operation is put between the entries for its start and its end. -/
theorem Nests.answering (hn : Nests d nested) {op : Op} {body : PoolM Reply} {p : Pool}
    (hb : Spec d body { p.note (.began op) with depth := p.depth + 1 }
      (fun _ q => q.holdings = p.holdings) fun _ q => q.Strewn p.holdings)
    (hc : ∀ ending q, PoolM.attempt nested body { p.note (.began op) with depth := p.depth + 1 } =
      (.done ending, q) → q.sight.Completes op) :
    Spec d (answering nested op body) p (fun _ q => q.holdings = p.holdings) fun _ _ => False := by
  have henter : Relation.ReflTransGen Pool.PlainStep p
      { p.note (.began op) with depth := p.depth + 1 } :=
    .tail (.single ⟨.aside (.remark (.began op) trivial) rfl, rfl⟩) ⟨.aside (.depth _) rfl, rfl⟩
  refine .given fun hv => .change (Hosts.steps hv henter) ?_
  refine (Spec.catch hn hb).known.bind fun ending q ⟨hq, hrun⟩ => .given fun hv => ?_
  have hq : q.holdings = p.holdings := by
    cases ending <;> exact hq
  have hleave : ∀ reply, Relation.ReflTransGen Pool.PlainStep q
      ({ q with depth := q.depth - 1 }.note (.ended op reply)) := by
    intro reply
    have hcompletes : { q with depth := q.depth - 1 }.sight.Completes op := by
      have := hc ending q hrun
      cases op <;> exact this
    have hdepth : q.PlainStep { q with depth := q.depth - 1 } := ⟨.aside (.depth _) rfl, rfl⟩
    exact .tail (.single hdepth) ⟨.aside (.ended op reply hcompletes) rfl, rfl⟩
  exact .change (Hosts.steps hv (hleave _)) (.pure hq)

end Hosted

variable [Admits d]

/-- A handle that an acquisition gave is named. -/
theorem Nests.keepHandle (hn : Nests d nested) (handle : String)
    {result : Except PoolError Lease} (hp : p.holdings = handed H result) :
    Spec d (keepHandle nested handle result) p (fun _ q => q.holdings = H)
      fun _ q => q.Strewn H := by
  cases result with
  | ok lease => exact (hn.storeHandle handle hp).bind fun _ q hq => .pure hq
  | error error => exact .pure hp

/-- A caller's check holds the resource of the lease meanwhile. -/
theorem Nests.probeLease (hn : Nests d nested) {lease : Lease} (hl : lease ∈ p.leases) :
    Spec d (do
      hold (.reference lease.resource)
      let result ← PoolM.probe nested lease.resource .caller
      PoolM.letGo nested (.reference lease.resource)
      pure (.checked result)) p (fun (_ : Reply) q => q.holdings = p.holdings)
      fun _ q => q.Strewn p.holdings := by
  refine .step (.refer lease hl) ?_
  have hb : (p.hold (.reference lease.resource)).Backs lease.resource .caller :=
    List.mem_cons_self
  refine hn.probe_bind hb nofun (fun _ => hn.letGo_reference rfl fun r hr _ => .pure hr)
    fun result q hq _ => ?_
  refine .step (.conclude lease.resource .caller result (hb.of_holdings hq)) ?_ rfl
    (Pool.findings_conclude rfl rfl)
  exact hn.letGo_reference hq fun r hr _ => .pure hr

/-- One step that leaves the stack alone, as an operation of its own. -/
theorem spec_change {g : Pool → Pool} {reply : Reply} (hs : p.Step (g p))
    (hh : (g p).holdings = p.holdings := by exact rfl)
    (plain : (g p).findings = p.findings := by exact rfl) :
    Spec d (do
      change g
      pure reply) p (fun _ q => q.holdings = p.holdings) fun _ q => q.Strewn p.holdings :=
  .given fun hv => .change (Admits.allow hv hs plain) (.pure hh)

/-- The work of a public operation takes steps and leaves the stack as it found it. The start of the
operation is in the history. -/
theorem Nests.perform (hn : Nests d nested) (rounds : Nat) {op : Op} (hop : op.IsPublic)
    (hbegan : ∃ r ∈ p.history, r.entry = .began op) :
    Spec d (perform nested rounds op) p (fun _ q => q.holdings = p.holdings)
      fun _ q => q.Strewn p.holdings := by
  have hinstalls := fun o => hop.of_mem_installs (o := o)
  cases op with
  | acquire handle =>
    exact (hn.acquire rounds p).bind fun result q hq => hn.keepHandle handle hq.holdings
  | acquireOnThread handle =>
    have hacquire := (hn.acquire rounds { p with traced := false }).weaken fun _ _ h => h.holdings
    have hcaught : Spec d (attempt nested (PoolM.acquire nested rounds)) { p with traced := false }
        (fun result q => q.holdings = match result with
          | .ok result => handed p.holdings result
          | .error _ => p.holdings)
        fun _ q => q.Strewn p.holdings := by
      refine (Spec.catch hn hacquire).mono (fun result q hq => ?_) fun _ _ => False.elim
      cases result <;> exact hq
    refine (spec_elsewhere hcaught).bind fun result q hq => ?_
    cases result with
    | ok result => exact hn.keepHandle handle hq
    | error panic => exact .raise (.of_eq hq)
  | share handle copy =>
    refine balanced_withLease (fun p lease hl => ?_) p
    refine .step (.cloneHandle lease hl) ?_
    exact (hn.storeHandle copy rfl).bind fun _ q hq => .pure hq
  | drop handle =>
    refine (hn.dropHandle handle p).bind fun dropped q hq => ?_
    cases dropped with
    | true => exact .pure hq
    | false => exact .pure hq
  | dropOnThread handle =>
    refine ((Balanced.attempt hn (hn.dropHandle handle)).balanced.elsewhere p).bind
      fun ending q hq => ?_
    match ending with
    | .ok true => exact .pure hq
    | .ok false => exact .pure hq
    | .error _ => exact .pure hq
  | invalidate handle =>
    exact balanced_withLease (fun p lease _ => spec_change (.invalidateLease lease.id)) p
  | inspect handle => exact balanced_withLease (fun p lease _ => .pure rfl) p
  | keeper => exact hn.keeperCycle.balanced.map p
  | care => exact hn.careCycle.balanced.map p
  | stopKeeper => exact spec_change (.keeperSignal _ fun _ => rfl)
  | stopCare => exact spec_change (.careSignal _ fun _ => rfl)
  | awaitKeeper => exact balanced_awaitKeeper nested rounds p
  | close => exact spec_change .close
  | drain =>
    have htakeOut : Spec d (takeOut .shutdown (·.drain)) p
        (fun slots q => q.holdings = slots.map (.removed .shutdown) ++ p.holdings)
        fun _ q => q.Strewn p.holdings :=
      .ofStep_done .drain rfl rfl
    have hdrain : Spec d (PoolM.drain nested) p (fun _ q => q.holdings = p.holdings)
        fun _ q => q.Strewn p.holdings :=
      htakeOut.bind fun slots q hq => hn.destroy hq nofun
    exact hdrain.bind fun _ q hq => .pure hq
  | isClosed | status | metrics | exported | desired | slot => exact .of_done rfl (d.refl p) rfl
  | setDesired count => exact (balanced_setDesired count).map p
  | probe handle => exact balanced_withLease (fun p lease hl => hn.probeLease hl) p
  | advance time => exact spec_change (.clock _ (Nat.le_add_right _ _))
  | setCheck resource routine =>
    exact spec_change (.user _ (fun hu => hu.withCheck resource hinstalls) rfl rfl)
  | setCheckDefault routine =>
    exact spec_change (.user _ (fun hu => { hu with checkDefault := hinstalls }) rfl rfl)
  | pushFactory behaviours =>
    exact spec_change (.user _ (fun hu => hu.pushFactory hinstalls) rfl rfl)
  | setFactoryDefault behaviour =>
    exact spec_change (.user _ (fun hu => hu.withFactoryRest hinstalls) rfl rfl)
  | breakDestructor resource =>
    refine spec_change (.brittle _ fun r hr => ?_)
    rcases List.mem_cons.1 hr with rfl | hr
    · obtain ⟨e, he, hentry⟩ := hbegan
      exact .inr ⟨e, he, by rw [hentry]; rfl⟩
    · exact .inl hr
  | setState | reserve | dropReservation | create | destroy => cases hop.isInternal_eq_false

/-- Every run of public operations keeps to a discipline that admits them, and leaves the stack as
it found it, whatever user code does meanwhile. -/
theorem contained_run (budget : Nat) {op : Op} (hop : op.IsPublic) :
    Contained d (run budget op) := by
  induction budget generalizing op with
  | zero => exact fun _ => .exceed
  | succ budget ih =>
    have hn : Nests d (run budget) := .of_contained fun _ => ih
    exact fun p => hn.answering (hn.perform budget hop ⟨_, List.mem_cons_self, rfl⟩)
      fun _ _ => completes_of_attempt budget

/-- Whatever operations nest, and however deep, each of them is contained. -/
theorem nests_run (budget : Nat) : Nests d (run budget) :=
  .of_contained fun _ => contained_run budget

end PoolM

namespace Pool

variable {p : Pool} {op : Op}

/-- A run of a public operation is a sequence of steps, even if its budget runs out. -/
theorem steps_run (budget : Nat) (hop : op.IsPublic) (hp : p.IsTame) :
    p.Steps (PoolM.run budget op p).2 :=
  (PoolM.contained_run (d := publicRun) budget hop p hp).1

/-- A public operation never ends with a panic, and leaves the stack as it found it. -/
theorem holdings_run {budget : Nat} {reply : Reply} {q : Pool} (hop : op.IsPublic)
    (hp : p.IsTame) (h : PoolM.run budget op p = (.done reply, q)) :
    q.holdings = p.holdings := by
  have hrun := (PoolM.contained_run (d := publicRun) budget hop p hp).2
  rw [h] at hrun
  exact hrun

end Pool

end LeasePool
