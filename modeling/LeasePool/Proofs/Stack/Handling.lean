import LeasePool.Proofs.Stack.Creation
import LeasePool.Proofs.Table

/-!
# The stack under acquisitions and releases

An acquisition holds the slot that it has claimed, until its lease begins. A release holds the slot
of the lease that has ended, until the slot is given back or destroyed. Either leaves the stack as
it found it.
-/

namespace LeasePool.PoolM

open Pool (Hosts Admits)

variable {d : Discipline} {nested : Op → PoolM Reply} {p : Pool} {H : List Holding}

/-- Taking a broken slot out leaves its resource, and the slot itself if it is still there. -/
theorem holdings_takeOutBroken {tenure : Tenure} {id resource : Nat} {reason : DestroyReason}
    (hp : p.holdings = .slot tenure id resource :: H) :
    (takeOutBroken tenure id resource reason p).2.holdings =
      (p.table.invalidate id).1.toList.map (.removed reason) ++ .reference resource :: H := by
  change _ ++ (Holding.reference resource :: p.holdings.erase _) = _
  rw [hp, List.erase_cons_head]
  rfl

/-- What is left when the slot with a number has been taken out as broken: the slots taken out and
the resource are on the stack, and nothing that has happened is forgotten. -/
structure TookOut (p : Pool) (H : List Holding) (id resource : Nat) (reason : DestroyReason)
    (slots : List (Slot Nat)) (q : Pool) : Prop where
  holdings : q.holdings = slots.map (.removed reason) ++ .reference resource :: H
  ids : ∀ s ∈ slots, s.id = id
  history : ∀ r ∈ p.history, r ∈ q.history

theorem tookOut_takeOutBroken {tenure : Tenure} {id resource : Nat} {reason : DestroyReason}
    (hp : p.holdings = .slot tenure id resource :: H) :
    TookOut p H id resource reason (p.table.invalidate id).1.toList
      (takeOutBroken tenure id resource reason p).2 where
  holdings := holdings_takeOutBroken hp
  ids _ hs := Table.id_of_invalidate (Option.mem_toList.1 hs)
  history _ hr := hr

/-- Slots that were taken out because a check failed are destroyed. Their resource remains. -/
theorem TookOut.destroy [Hosts d] {id resource : Nat} {reason : DestroyReason}
    {slots : List (Slot Nat)} {q : Pool} (h : TookOut p H id resource reason slots q)
    (hn : Nests d nested) (hf : reason = .unhealthy → q.HasFailed id) :
    Spec d (destroy nested reason slots) q (fun _ r => r.holdings = .reference resource :: H)
      fun _ r => r.Strewn H := by
  refine (hn.destroy h.holdings fun he s hs => ?_).mono (fun _ _ hr => hr)
    fun _ _ hr => hr.of_cons trivial
  rw [h.ids s hs]
  exact hf he

/-- A resource that was not handed out is let go of, and the operation goes on. -/
theorem Nests.letGo_reference [Hosts d] (hn : Nests d nested) {α : Type} {resource : Nat}
    {k : Unit → PoolM α} {done : α → Pool → Prop} (hp : p.holdings = .reference resource :: H)
    (hk : ∀ q, q.holdings = H → d.moves p q → Spec d (k ()) q done fun _ q => q.Strewn H) :
    Spec d (PoolM.letGo nested (.reference resource) >>= k) p done fun _ q => q.Strewn H :=
  ((hn.letGo (.inl rfl) hp).tracked.mono (fun _ _ h => h) fun _ _ h => .of_eq h).bind
    fun _ q ⟨hq, hpq⟩ => hk q hq hpq

variable [Admits d]

/-- A check leaves the slot claimed if the resource is healthy, and else only the resource, since
the slot is taken out at once. -/
theorem Nests.verify (hn : Nests d nested) {id resource : Nat}
    (hp : p.holdings = .slot .claim id resource :: H) :
    Spec d (verify nested id resource) p (fun healthy q => q.holdings =
        (if healthy then .slot .claim id resource else .reference resource) :: H)
      fun _ q => q.Strewn H := by
  have hb : p.Backs resource .access := ⟨id, by simp [hp]⟩
  have hmarked : ∀ q : Pool, q.holdings = .slot .claim id resource :: H →
      Spec d (pure true) (confirm id q).2 (fun healthy r => r.holdings =
          (if healthy then .slot .claim id resource else .reference resource) :: H)
        fun _ r => r.Strewn H :=
    fun q hq => .pure hq
  refine hn.probe_bind hb nofun (fun hs => ?_) fun result q hq _ => ?_
  · have happroves : p.Approves (confirm id p).2 := .unchecked id resource (by simp [hp]) hs
    exact .jump (n := pure true) rfl (Admits.approve · happroves) (hmarked p hp)
  rw [hp] at hq
  have hmem : .slot .claim id resource ∈ q.holdings := by simp [hq]
  cases hobjection : Verdict.objection? result with
  | none =>
    obtain rfl := (Verdict.objection?_eq_none_iff result).1 hobjection
    exact .jump (n := pure true) rfl (Admits.approve · (.checked id resource hmem)) (hmarked _ hq)
  | some reason =>
    let noted := (conclude resource .access result q).2.note (.event (.healthCheckFailed id reason))
    have hfailed : noted.HasFailed id := ⟨_, List.mem_cons_self, reason, rfl⟩
    let taken := (takeOutBroken .claim id resource .unhealthy noted).2
    have htook : TookOut noted H id resource .unhealthy _ taken := tookOut_takeOutBroken hq
    refine .jump (q := taken) (n := do
      PoolM.destroy nested .unhealthy (noted.table.invalidate id).1.toList
      pure false) rfl (Admits.reject · (.access id resource result reason hmem hobjection)) ?_
    exact (htook.destroy hn fun _ => hfailed.mono htook.history).bind fun _ r hr => .pure hr

/-- Whether a claimed slot may be handed out decides what is left of the claim. -/
theorem Nests.passes (hn : Nests d nested) {id resource : Nat}
    (hp : p.holdings = .slot .claim id resource :: H) :
    Spec d (passes nested id resource) p (fun healthy q => q.holdings =
        (if healthy then .slot .claim id resource else .reference resource) :: H)
      fun _ q => q.Strewn H := by
  apply Spec.read
  cases p.config.checkOnAccess with
  | true => exact hn.verify hp
  | false => exact .pure hp

/-- What an operation leaves when the lease of a slot has begun: the first handle of the lease, and
an entry that tells of the hand-out. -/
structure Begun (H : List Holding) (id resource : Nat) (lease : Lease) (q : Pool) : Prop where
  slot : lease.slot = id
  resource : lease.resource = resource
  holdings : q.holdings = .handle lease.id :: H
  written : q.history.head?.map (·.entry) = some (.handedOut lease.slot lease.resource)

/-- The claim of a slot ends when its lease begins, or when the callback panics. A lease begins with
one handle. -/
theorem Nests.handOut (hn : Nests d nested) {id resource : Nat}
    (hp : p.holdings = .slot .claim id resource :: H) :
    Spec d (handOut nested id resource) p (Begun H id resource) fun _ q => q.Strewn H := by
  have hcount : Spec d (countAcquired id resource) p
      (fun _ q => q.holdings = .slot .handOver id resource :: H) fun _ q => q.Strewn H := by
    refine .ofStep_done (.countAcquired id resource (by simp [hp])) rfl ?_
    change _ :: p.holdings.erase _ = _
    rw [hp, List.erase_cons_head]
  refine hcount.bind fun _ q hq => ?_
  refine Spec.bind ((hn.callHook .acquired q).mono (fun _ _ h => h)
    fun _ r ⟨hr, hmark⟩ => (hq ▸ hr).of_cons hmark) fun _ r hr => ?_
  rw [hq] at hr
  refine .ofStep_done (.beginLease id resource (by simp [hr])) rfl ⟨rfl, rfl, ?_, rfl⟩
  change _ :: r.holdings.erase _ = _
  rw [hr, List.erase_cons_head]

/-- A refusal is balanced. -/
theorem Nests.refuse (hn : Nests d nested) : Balanced d (refuse nested) := by
  intro p
  refine .read (.read ?_)
  refine .step (.count _ _ trivial) (.step (.remark _ trivial) ?_)
  exact ((hn.balanced_callHook .exhausted).from (by rfl)).bind fun _ q hq => .pure hq

/-- An acquisition holds the idle slot that it claims. -/
theorem spec_claim (p : Pool) :
    Spec d claim p (fun slot q => q.holdings =
        match slot with
        | some (id, resource) => .slot .claim id resource :: p.holdings
        | none => p.holdings)
      fun _ q => q.Strewn p.holdings := by
  intro hv
  unfold claim
  rw [update_apply]
  cases ht : p.table.claimIdle with
  | none => exact ⟨d.refl p, rfl⟩
  | some found => exact ⟨Admits.allow hv (.claim found.1 found.2 ht) rfl, rfl⟩

/-- The stack after an acquisition. A new lease has one handle, which the operation holds. -/
def handed (H : List Holding) : Except PoolError Lease → List Holding
  | .ok lease => .handle lease.id :: H
  | .error _ => H

/-- The last round of an acquisition that gives a lease: the operation owns the slot in addition to
what it held before, finds that it may hand the slot out, and does so. -/
structure LastRound (d : Discipline) (nested : Op → PoolM Reply) (p : Pool) (lease : Lease)
    (claimed passed q : Pool) : Prop where
  since : d.moves p claimed
  owned : claimed.holdings = .slot .claim lease.slot lease.resource :: p.holdings
  passes : PoolM.passes nested lease.slot lease.resource claimed = (.done true, passed)
  handedOut : PoolM.handOut nested lease.slot lease.resource passed = (.done lease, q)
  written : q.history.head?.map (·.entry) = some (.handedOut lease.slot lease.resource)

/-- What an acquisition leaves. If it gives a lease, its last round has begun the lease. -/
structure Acquired (d : Discipline) (nested : Op → PoolM Reply) (p : Pool)
    (result : Except PoolError Lease) (q : Pool) : Prop where
  holdings : q.holdings = handed p.holdings result
  round : ∀ lease, result = .ok lease →
    ∃ claimed passed, LastRound d nested p lease claimed passed q

omit [Admits d] in
theorem Acquired.of_error {error : PoolError} {q : Pool} (h : q.holdings = p.holdings) :
    Acquired d nested p (.error error) q :=
  ⟨h, nofun⟩

/-- A claimed slot that may be handed out is handed out. -/
theorem Nests.acquired (hn : Nests d nested) {id resource : Nat} {claimed passed : Pool}
    (hs : d.moves p claimed) (hc : claimed.holdings = .slot .claim id resource :: p.holdings)
    (hpasses : PoolM.passes nested id resource claimed = (.done true, passed))
    (hp : passed.holdings = .slot .claim id resource :: p.holdings) :
    Spec d (do
      let lease ← PoolM.handOut nested id resource
      pure (.ok lease)) passed (Acquired d nested p) fun _ q => q.Strewn p.holdings := by
  refine (hn.handOut hp).known.bind fun lease q ⟨hq, hhandOut⟩ => .pure ?_
  obtain ⟨rfl, rfl, hholdings, hwritten⟩ := hq
  refine ⟨hholdings, ?_⟩
  rintro _ ⟨⟩
  exact ⟨claimed, passed, hs, hc, hpasses, hhandOut, hwritten⟩

/-- However many rounds an acquisition takes, it adds the first handle of its lease to the stack, or
nothing. -/
theorem Nests.acquireRounds (hn : Nests d nested) (rounds rejected : Nat) {start : Pool}
    (hs : d.moves start p) (hp : p.holdings = start.holdings) :
    Spec d (acquireRounds nested rounds rejected) p (Acquired d nested start)
      fun _ q => q.Strewn start.holdings := by
  induction rounds generalizing p rejected with
  | zero => exact .exceed
  | succ rounds ih =>
    unfold PoolM.acquireRounds
    have hrefuse : ∀ q : Pool, q.holdings = start.holdings → Spec d (do
        let error ← PoolM.refuse nested
        (pure (.error error) : PoolM (Except PoolError Lease))) q
        (Acquired d nested start) fun _ r => r.Strewn start.holdings :=
      fun q hq => (hn.refuse.from hq).bind fun _ _ hr => .pure (.of_error hr)
    refine ((spec_claim p).tracked.mono (fun _ _ h => h) fun _ _ h => hp ▸ h).bind
      fun slot q ⟨hq, hpq⟩ => ?_
    have hsq := d.trans hs hpq
    rw [hp] at hq
    cases slot with
    | some slot =>
      obtain ⟨id, resource⟩ := slot
      refine (hn.passes hq).known.tracked.bind fun healthy r ⟨⟨hr, hpasses⟩, hqr⟩ => ?_
      cases healthy with
      | true => exact hn.acquired hsq hq hpasses hr
      | false =>
        refine hn.letGo_reference hr fun s hs hrs => ?_
        exact ih rejected (d.trans hsq (d.trans hqr hrs)) hs
    | none =>
      refine (spec_reserve (fun hne => absurd rfl hne) hq).tracked.bind
        fun granted r ⟨⟨hgranted, hr⟩, hqr⟩ => ?_
      have hsr := d.trans hsq hqr
      split
      · next hg =>
        subst hg
        have hmay : r.MayCreate .acquire := trivial
        refine (hn.createResource (Hosts.factory hmay) (.inr rfl) hr).tracked.bind
          fun result s ⟨hs, hrs⟩ => ?_
        have hss := d.trans hsr hrs
        match result, hs with
        | .ok (some (id, resource)), hs =>
          refine (hn.passes hs).known.tracked.bind fun healthy t ⟨⟨ht, hpasses⟩, hst⟩ => ?_
          cases healthy with
          | true => exact hn.acquired hss hs hpasses ht
          | false =>
            apply Spec.read
            dsimp only
            split
            · refine ((hn.refuse.from ht).mono (fun _ _ h => h) fun _ u hu => ?_).bind
                fun _ u hu => ?_
              · exact hu.of_cons trivial
              · exact hn.letGo_reference hu fun v hv _ => .pure (.of_error hv)
            · refine hn.letGo_reference ht fun u hu htu => ?_
              exact ih (rejected + 1) (d.trans hss (d.trans hst htu)) hu
        | .ok none, hs => exact .pure (.of_error hs)
        | .error _, hs => exact hrefuse s hs
      · next hg =>
        obtain rfl : granted = 0 := by omega
        exact hrefuse r hr

/-- An acquisition leaves the handle of its lease on the stack, if it gives one. -/
theorem Nests.acquire (hn : Nests d nested) (rounds : Nat) (p : Pool) :
    Spec d (acquire nested rounds) p (Acquired d nested p) fun _ q => q.Strewn p.holdings := by
  apply Spec.read
  cases p.closed with
  | true => exact .pure (.of_error rfl)
  | false => exact hn.acquireRounds rounds 0 (d.refl p) rfl

/-- Whether an ended lease keeps its resource is found out while the operation owns its slot. A
check that fails is reported, together with what follows from it. -/
theorem Nests.objection_bind (hn : Nests d nested) {β : Type} {lease : Lease}
    {k : Option DestroyReason → PoolM β} {after : β → Pool → Prop} {raised : Panic → Pool → Prop}
    (hp : p.holdings = .slot .release lease.slot lease.resource :: H)
    (hkept : ∀ q, q.holdings = p.holdings → lease.invalidated = false →
      Spec d (k none) q after raised)
    (hinvalidated : Spec d (k (some .invalidated)) p after raised)
    (hfailed : ∀ result reason q, q.holdings = p.holdings →
      Verdict.objection? result = some reason → Spec d (do
        conclude lease.resource .release result
        emit (.healthCheckFailed lease.slot reason)
        k (some .unhealthy)) q after raised) :
    Spec d (objection nested lease >>= k) p after raised := by
  unfold PoolM.objection
  cases hinv : lease.invalidated with
  | true => exact hinvalidated
  | false =>
    rw [if_neg nofun, bind_assoc]
    apply Spec.read
    cases p.config.checkOnRelease && !p.closed with
    | false => exact hkept p rfl hinv
    | true =>
      have hb : p.Backs lease.resource .release := ⟨lease.slot, by simp [hp]⟩
      rw [if_pos rfl, bind_assoc]
      refine hn.probe_bind hb nofun (fun _ => hkept p rfl hinv) fun result q hq _ => ?_
      have hbq : q.Backs lease.resource .release := hb.of_holdings hq
      cases hobjection : Verdict.objection? result with
      | none =>
        refine .step (.conclude lease.resource .release result hbq) (hkept _ hq hinv) rfl ?_
        exact Pool.findings_conclude (Checker.condemns_eq_false hobjection .release) rfl
      | some reason => exact hfailed result reason q hq hobjection

/-- The slot of an ended lease is given back, or destroyed as soon as it is known to be broken. Its
resource remains on the stack. -/
theorem Nests.release (hn : Nests d nested) {lease : Lease}
    (hp : p.holdings = .slot .release lease.slot lease.resource :: H) :
    Spec d (release nested lease) p
      (fun _ q => q.holdings = .reference lease.resource :: H) fun _ q => q.Strewn H := by
  have hmem : ∀ q : Pool, q.holdings = p.holdings →
      .slot .release lease.slot lease.resource ∈ q.holdings := fun q hq => by simp [hq, hp]
  have hnotify : ∀ q : Pool, q.holdings = .reference lease.resource :: H →
      Spec d (PoolM.callHook nested .released) q
        (fun _ r => r.holdings = .reference lease.resource :: H) fun _ r => r.Strewn H :=
    fun q hq => ((hn.balanced_callHook .released).from hq).mono (fun _ _ h => h)
      fun _ _ hr => hr.of_cons trivial
  have hbroken : ∀ (reason : DestroyReason) (m : PoolM Unit) (q r : Pool),
      r.holdings = p.holdings → (reason = .unhealthy → r.HasFailed lease.slot) →
      q.Rejects (giveUp lease reason r).2 → m q = (do
        let removed ← giveUp lease reason
        PoolM.destroy nested reason removed
        PoolM.callHook nested .released : PoolM Unit) r →
      Spec d m q (fun _ r => r.holdings = .reference lease.resource :: H)
        fun _ r => r.Strewn H := by
    intro reason m q r hr hfailed hrejects hm
    have htook : TookOut r H lease.slot lease.resource reason _
        (takeOutBroken .release lease.slot lease.resource reason r).2 :=
      tookOut_takeOutBroken (hr.trans hp)
    have hnoted : TookOut r H lease.slot lease.resource reason _ (giveUp lease reason r).2 :=
      { htook with history := fun _ he => List.mem_cons_of_mem _ he }
    have hleft := hnoted.destroy (d := d) hn fun he => (hfailed he).mono hnoted.history
    exact .jump (q := (giveUp lease reason r).2) hm (Admits.reject · hrejects)
      (hleft.bind fun _ s hs => hnotify s hs)
  refine hn.objection_bind hp (fun q hq hinv => ?_) ?_ fun result reason q hq hobjection => ?_
  · have hgiveBack : Spec d (giveBack lease) q
        (fun _ r => r.holdings = .reference lease.resource :: H) fun _ r => r.Strewn H := by
      refine .ofStep_done (.giveBack lease (hmem q hq)) rfl ?_ ?_
      · change _ :: q.holdings.erase _ = _
        rw [hq, hp, List.erase_cons_head]
      · exact Pool.findings_giveBack hinv
    exact hgiveBack.bind fun _ r hr => hnotify r hr
  · exact hbroken .invalidated _ p p rfl nofun (.invalidated lease (hmem p rfl)) rfl
  · let noted := (conclude lease.resource .release result q).2.note
      (.event (.healthCheckFailed lease.slot reason))
    exact hbroken .unhealthy _ q noted hq (fun _ => ⟨_, List.mem_cons_self, reason, rfl⟩)
      (.release lease result reason (hmem q hq) hobjection) rfl

/-- Whether a lease has a handle can be looked up. -/
theorem hasHandle_iff {id : Nat} :
    (p.handles.any (·.2 == id) || p.holdings.contains (.handle id)) = true ↔ p.HasHandle id := by
  simp only [Pool.HasHandle, Bool.or_eq_true, List.any_eq_true, beq_iff_eq, Prod.exists,
    List.contains_iff_mem, exists_eq_right]

/-- A handle is let go of. If its lease has no other one it ends, and the running operation holds
its slot. -/
theorem spec_endLease {id : Nat} (hp : p.holdings = .handle id :: H) :
    Spec d (endLease id) p (fun lease q => q.holdings =
        match lease with
        | some lease => .slot .release lease.slot lease.resource :: H
        | none => H)
      fun _ q => q.Strewn H := by
  intro hv
  have hmem : .handle id ∈ p.holdings := by simp [hp]
  have hleft : (p.unhold (.handle id)).holdings = H := by
    rw [Pool.unhold, hp, List.erase_cons_head]
  unfold endLease
  rw [update_apply]
  dsimp only
  split
  · next hother =>
    exact ⟨Admits.allow hv (.letGoHandle id hmem (.inl (hasHandle_iff.1 hother))) rfl, hleft⟩
  · next hlast =>
    have hlast : ¬(p.unhold (.handle id)).HasHandle id := mt hasHandle_iff.2 hlast
    split
    · next lease hl =>
      have hl' : lease ∈ p.leases := List.mem_of_find?_eq_some hl
      obtain rfl : lease.id = id := by simpa using List.find?_some hl
      exact ⟨Admits.allow hv (.endLease lease hl' hmem hlast) rfl, congrArg _ hleft⟩
    · next hnone =>
      refine ⟨Admits.allow hv (.letGoHandle id hmem (.inr fun l hl => ?_)) rfl, hleft⟩
      simpa using List.find?_eq_none.1 hnone l hl

/-- A release takes the handle from the stack. -/
theorem Nests.releaseUnheld (hn : Nests d nested) {id : Nat}
    (hp : p.holdings = .handle id :: H) :
    Spec d (releaseUnheld nested id) p (fun _ q => q.holdings = H)
      fun _ q => q.Strewn H := by
  refine (spec_endLease hp).bind fun lease q hq => ?_
  cases lease with
  | none => exact .pure hq
  | some lease =>
    refine (hn.release hq).bind fun _ r hr => ?_
    exact (hn.letGo (.inl rfl) hr).mono (fun _ _ h => h) fun _ _ h => .of_eq h

/-- Keeping a handle under a name takes it from the stack. -/
theorem Nests.storeHandle (hn : Nests d nested) (handle : String) {lease : Nat}
    (hp : p.holdings = .handle lease :: H) :
    Spec d (storeHandle nested handle lease) p (fun _ q => q.holdings = H)
      fun _ q => q.Strewn H := by
  have hname : Spec d (nameHandle handle lease) p
      (fun old q => q.holdings = old.toList.map .handle ++ H) fun _ q => q.Strewn H := by
    refine .ofStep_done (.nameHandle handle lease (by simp [hp])) rfl ?_
    change _ ++ p.holdings.erase _ = _
    rw [hp, List.erase_cons_head]
  refine hname.bind fun old q hq => ?_
  cases old with
  | none => exact .pure hq
  | some id => exact hn.releaseUnheld hq

/-- Dropping a handle is balanced. -/
theorem Nests.dropHandle (hn : Nests d nested) (handle : String) :
    Balanced d (dropHandle nested handle) := by
  intro p
  have hunname : Spec d (unnameHandle handle) p
      (fun old q => q.holdings = old.toList.map .handle ++ p.holdings)
      fun _ q => q.Strewn p.holdings :=
    .ofStep_done (.unnameHandle handle) rfl rfl
  refine hunname.bind fun old q hq => ?_
  cases old with
  | none => exact .pure hq
  | some id => exact (hn.releaseUnheld hq).bind fun _ q hq => .pure hq

end LeasePool.PoolM
