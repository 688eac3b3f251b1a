import LeasePool.Proofs.Search
import LeasePool.Proofs.Capacity

/-!
# Acquisitions

What one round of an acquisition does, and from that what all its rounds do. Each round takes an
idle slot out of the search or uses up one of the new resources that may be tried, so the rounds
end.
-/

namespace LeasePool

namespace PoolM

variable {first p : Pool} {deeds : List Entry} {b : Bench} {nested : Op → PoolM Reply}
  {s : Slot Nat} {id resource : Nat}

/-- The first idle slot is claimed. -/
theorem claim_of_some (hs : p.table.firstIdle? = some s) :
    claim p = (.done (some (s.id, s.resource)),
      { p with table := p.table.setState s.id .inUse }.hold (.slot .claim s.id s.resource)) := by
  have hclaim : p.table.claimIdle =
      some ({ s with state := .inUse }, p.table.setState s.id .inUse) := by
    rw [Table.claimIdle, show p.table.slots.find? (·.state == .idle) = some s from hs]
    rfl
  rw [claim, update_apply, hclaim]

/-- Without an idle slot nothing is claimed. -/
theorem claim_of_none (hs : p.table.firstIdle? = none) : claim p = (.done none, p) := by
  have hclaim : p.table.claimIdle = none := by
    rw [Table.claimIdle, show p.table.slots.find? (·.state == .idle) = none from hs]
    rfl
  rw [claim, update_apply, hclaim]

/-- The first idle slot is claimed and comes into use. -/
theorem doing_claim_of_some (h : first.Does deeds b p) (hs : b.table.firstIdle? = some s) :
    Doing first claim p fun claimed q => claimed = some (s.id, s.resource) ∧
      first.Does deeds (b.withTable (b.table.setState s.id .inUse)) q := by
  obtain rfl := h.bench
  refine .of_done (claim_of_some hs) ⟨rfl, ?_⟩
  exact h.update (·.withTable (p.table.setState s.id .inUse)) rfl rfl rfl rfl h.quiet

/-- Without an idle slot a claim does nothing. -/
theorem doing_claim_of_none (h : first.Does deeds b p) (hs : b.table.firstIdle? = none) :
    Doing first claim p fun claimed q => claimed = none ∧ first.Does deeds b q := by
  obtain rfl := h.bench
  exact .of_done (claim_of_none hs) ⟨rfl, h⟩

/-- A slot found healthy is marked with the time. -/
theorem doing_confirm (h : first.Does deeds b p) (id : Nat) :
    Doing first (confirm id) p fun _ q => first.Does deeds
      { b with
        clock := b.clock.read
        table := b.table.modify id fun s => { s with lastCheck := some b.clock.read.now } } q := by
  refine (doing_now h).bind ?_
  rintro _ q ⟨rfl, hq⟩
  have hmarked : first.Does deeds
      { b with
        clock := b.clock.read
        table := b.table.modify id fun s => { s with lastCheck := some b.clock.read.now } }
      (q.onTable (·.modify id fun s => { s with lastCheck := some b.clock.read.now })) := by
    exact hq.update (fun c => c.withTable
      (c.table.modify id fun s => { s with lastCheck := some b.clock.read.now }))
      rfl rfl rfl rfl hq.quiet
  exact .of_done rfl (hmarked.remark rfl)

/-- A claimed slot whose resource is healthy gets the time of its check. -/
theorem doing_verify_of_healthy (h : first.Does deeds b p)
    (hr : b.user.checked b.config.checkTimeout resource = .ok .healthy)
    (nested : Op → PoolM Reply) (id : Nat) :
    Doing first (verify nested id resource) p fun passed q => passed = true ∧
      ∃ (time : Instant) (clock : Clock), b.clock.now ≤ time ∧ time ≤ clock.now ∧
        first.Does (deeds ++ checkDeeds b.user.checkStyle resource .access (.ok .healthy))
          { b with
            clock
            user := b.user.afterCheck resource
            table := b.table.modify id fun s => { s with lastCheck := some time } } q := by
  refine (doing_probe h nested resource .access).bind ?_
  rintro _ q ⟨rfl, clock, hle, hq⟩
  rw [hr] at hq ⊢
  refine (doing_confirm hq id).bind fun _ r hr => .pure ⟨rfl, clock.read.now, clock.read, ?_⟩
  exact ⟨Nat.le_trans hle clock.now_le_read, Nat.le_refl _, hr⟩

/-- A claimed slot with an objection to its resource leaves the table. -/
theorem doing_verify_of_objection (h : first.Does deeds b p) {reason : String}
    (hr : Verdict.objection? (b.user.checked b.config.checkTimeout s.resource) = some reason)
    (hs : (b.table.invalidate s.id).1 = some { s with state := .invalid })
    (nested : Op → PoolM Reply) :
    Doing first (verify nested s.id s.resource) p fun passed q => passed = false ∧
      ∃ clock : Clock, b.clock.now ≤ clock.now ∧ first.Does
        (deeds ++
          (Trial.mk s (b.user.checked b.config.checkTimeout s.resource)).deeds b.user.checkStyle)
        (b.rejecting s clock) q := by
  refine (doing_probe h nested s.resource .access).bind ?_
  rintro _ q ⟨rfl, clock, hle, hq⟩
  rw [Trial.deeds, hr]
  refine (doing_emit hq _).bind fun _ r hr => ?_
  refine (doing_takeOutBroken hr .claim s.id s.resource .unhealthy).bind ?_
  rintro _ u ⟨rfl, hu⟩
  rw [show (Bench.table _).invalidate s.id = b.table.invalidate s.id from rfl, hs]
  refine (doing_destroy hu nested .unhealthy _).bind fun _ v hv => .pure ⟨rfl, clock, hle, ?_⟩
  simp only [List.append_assoc] at hv ⊢
  exact hv

/-- A claimed slot passes if it is not checked, or if it is healthy. -/
theorem doing_passes_of_healthy (h : first.Does deeds b p)
    (hr : b.config.checkOnAccess = true →
      b.user.checked b.config.checkTimeout s.resource = .ok .healthy)
    (nested : Op → PoolM Reply) :
    Doing first (passes nested s.id s.resource) p fun passed q => passed = true ∧
      ∃ (time : Instant) (user : UserCode) (clock : Clock),
        b.clock.now ≤ time ∧ time ≤ clock.now ∧
        first.Does (deeds ++ (Trial.mk s (.ok .healthy)).deeds b.accessStyle)
          { b with
            clock
            user
            table := b.table.modify s.id fun s =>
              { s with lastCheck := if b.config.checkOnAccess then some time else s.lastCheck } }
          q := by
  have hconfig : p.config = b.config := congrArg (·.config) h.bench
  have hsilent (style : Option CheckStyle) : (Trial.mk s (.ok .healthy)).deeds style =
      checkDeeds style s.resource .access (.ok .healthy) := List.append_nil _
  refine .read ?_
  rw [hconfig, hsilent, Bench.accessStyle]
  cases hc : b.config.checkOnAccess with
  | true =>
    refine (doing_verify_of_healthy h (hr hc) nested s.id).weaken ?_
    rintro _ q ⟨rfl, time, clock, hsince, htill, hq⟩
    exact ⟨rfl, time, _, clock, hsince, htill, hq⟩
  | false =>
    have hsame : b.table.modify s.id (fun s => { s with lastCheck := s.lastCheck }) = b.table := by
      simp only [Table.modify, ite_self, List.map_id']
    refine .pure ⟨rfl, b.clock.now, b.user, b.clock, Nat.le_refl _, Nat.le_refl _, ?_⟩
    have hempty : checkDeeds (if false = true then b.user.checkStyle else none) s.resource .access
        (.ok .healthy) = [] := rfl
    rw [hempty, List.append_nil]
    simp only [Bool.false_eq_true, if_false]
    rw [hsame]
    exact h

/-- A slot whose check objects is taken out and destroyed, and the acquisition goes on. -/
theorem doing_passes_of_objection (h : first.Does deeds b p) (hc : b.config.checkOnAccess = true)
    {reason : String}
    (hr : Verdict.objection? (b.user.checked b.config.checkTimeout s.resource) = some reason)
    (hs : (b.table.invalidate s.id).1 = some { s with state := .invalid })
    (nested : Op → PoolM Reply) :
    Doing first (passes nested s.id s.resource) p fun passed q => passed = false ∧
      ∃ clock : Clock, b.clock.now ≤ clock.now ∧ first.Does
        (deeds ++
          (Trial.mk s (b.user.checked b.config.checkTimeout s.resource)).deeds b.accessStyle)
        (b.rejecting s clock) q := by
  have hconfig : p.config = b.config := congrArg (·.config) h.bench
  refine .read ?_
  rw [hconfig, Bench.accessStyle, hc]
  exact doing_verify_of_objection h hr hs nested

/-- A claimed slot is leased and counted, once the hook has been called. -/
theorem doing_handOut (h : first.Does deeds b p) (nested : Op → PoolM Reply) (id resource : Nat) :
    Doing first (handOut nested id resource) p fun lease q =>
      lease = { id := b.nextLease, slot := id, resource } ∧ ∃ desired hook,
        first.Does (deeds ++ [.hook .acquired, .handedOut id resource])
          ({ b with
            acquired := b.acquired + 1
            leases := { id := b.nextLease, slot := id, resource } :: b.leases
            nextLease := b.nextLease + 1 }.steered desired hook) q := by
  have hcounted : first.Does deeds { b with acquired := b.acquired + 1 }
      (({ p with tally := p.tally.bump .acquired } : Pool).exchange (.slot .claim id resource)
        (.slot .handOver id resource)) := by
    exact h.update (fun c => { c with acquired := c.acquired + 1 }) rfl rfl rfl rfl h.quiet
  refine .change ((doing_callHook hcounted nested .acquired).bind ?_)
  rintro _ q ⟨desired, hook, hq⟩
  have hlease : q.nextLease = b.nextLease := congrArg (·.nextLease) hq.bench
  have hbegun : first.Does (deeds ++ [.hook .acquired])
      ({ b with
        acquired := b.acquired + 1
        leases := { id := b.nextLease, slot := id, resource } :: b.leases
        nextLease := b.nextLease + 1 }.steered desired hook)
      { q.exchange (.slot .handOver id resource) (.handle q.nextLease) with
        leases := { id := q.nextLease, slot := id, resource } :: q.leases
        nextLease := q.nextLease + 1 } := by
    refine hq.change rfl rfl rfl ?_ hq.quiet
    rw [hlease]
    exact congrArg (fun c : Bench => { c with
      leases := { id := b.nextLease, slot := id, resource } :: c.leases
      nextLease := b.nextLease + 1 }) hq.bench
  have hend := hbegun.deed (e := .handedOut id resource) rfl nofun
  rw [List.append_assoc] at hend
  exact .of_done rfl
    ⟨congrArg (fun n => ({ id := n, slot := id, resource } : Lease)) hlease, desired, hook, hend⟩

/-- A refusal is counted and reported, and then the hook is asked. -/
theorem doing_refuse (h : first.Does deeds b p) (nested : Op → PoolM Reply) :
    Doing first (refuse nested) p fun error q =>
      error = .exhausted (b.table.count .inUse) b.config.maxCount ∧ ∃ desired hook,
        first.Does
          (deeds ++ [.event (.poolExhausted (b.table.count .inUse) b.config.maxCount),
            .hook .exhausted])
          ({ b with exhausted := b.exhausted + 1 }.steered desired hook) q := by
  have htable : p.table = b.table := congrArg (·.table) h.bench
  have hconfig : p.config = b.config := congrArg (·.config) h.bench
  have hcounted : first.Does deeds { b with exhausted := b.exhausted + 1 }
      { p with tally := p.tally.bump .exhausted } := by
    exact h.update (fun c => { c with exhausted := c.exhausted + 1 }) rfl rfl rfl rfl h.quiet
  refine .read (.read ?_)
  rw [htable, hconfig]
  refine .change ((doing_emit hcounted _).bind fun _ q hq => ?_)
  refine (doing_callHook hq nested .exhausted).bind ?_
  rintro _ r ⟨desired, hook, hr⟩
  rw [List.append_assoc] at hr
  exact .pure ⟨rfl, desired, hook, hr⟩

/-- A resource that does not pass was checked, and there is an objection. -/
theorem exists_objection {resource : Nat}
    (h : ¬(b.config.checkOnAccess = true →
      b.user.checked b.config.checkTimeout resource = .ok .healthy)) :
    b.config.checkOnAccess = true ∧ ∃ reason,
      Verdict.objection? (b.user.checked b.config.checkTimeout resource) = some reason := by
  obtain ⟨hc, hsick⟩ := Classical.not_imp.1 h
  exact ⟨hc, Option.ne_none_iff_exists'.1 (mt (Verdict.objection?_eq_none_iff _).1 hsick)⟩

/-- What an acquisition has done when it ends with a result. -/
def Acquiring (first : Pool) (deeds : List Entry) (b : Bench) (tries : Nat)
    (result : Except PoolError Lease) (q : Pool) : Prop :=
  ∃ tried remaining created supply c,
    b.Acquires tries tried remaining created supply result c ∧ first.Does
      (deeds ++ acquireDeeds b.accessStyle (remaining.count .inUse) b.config.maxCount tried created
        supply) c q

/-- Rejecting a slot does not change how slots are checked. -/
theorem accessStyle_rejecting (b : Bench) (s : Slot Nat) (clock : Clock) :
    (b.rejecting s clock).accessStyle = b.accessStyle := by
  simp only [Bench.accessStyle, Bench.rejecting, UserCode.checkStyle_afterCheck]

/-- It does not matter whether a rejected slot was claimed. -/
theorem rejecting_claimed (b : Bench) (s : Slot Nat) (clock : Clock) :
    (b.withTable (b.table.setState s.id .inUse)).rejecting s clock = b.rejecting s clock := by
  simp only [Bench.rejecting, Bench.withTable, Table.invalidate_setState]

/-- An acquisition that first rejects an idle slot does so in addition to what it does
afterwards. -/
theorem Acquiring.reject {tries : Nat} {reason : String} {clock : Clock}
    {result : Except PoolError Lease} {q : Pool}
    (h : Acquiring first
      (deeds ++ (Trial.mk s (b.user.checked b.config.checkTimeout s.resource)).deeds b.accessStyle)
      (b.rejecting s clock) tries result q)
    (hs : b.table.firstIdle? = some s) (hc : b.config.checkOnAccess = true)
    (hr : Verdict.objection? (b.user.checked b.config.checkTimeout s.resource) = some reason)
    (hle : b.clock.now ≤ clock.now) : Acquiring first deeds b tries result q := by
  obtain ⟨tried, remaining, created, supply, c, hacquires, hq⟩ := h
  refine ⟨_, remaining, created, supply, c, hacquires.reject hs hc hr hle, ?_⟩
  rw [accessStyle_rejecting, List.append_assoc] at hq
  simp only [acquireDeeds, List.flatMap_cons, List.append_assoc] at hq ⊢
  exact hq

/-- An acquisition that first creates a resource and rejects it does so in addition to what it does
afterwards. -/
theorem Acquiring.recreate {tries : Nat} {reason : String} {clock : Clock}
    {result : Except PoolError Lease} {q : Pool}
    (h : Acquiring first
      (deeds ++ creationDeeds .acquire b.table.nextId 1 none ++
        (Trial.mk b.newSlot (b.user.checked b.config.checkTimeout b.made)).deeds b.accessStyle)
      (b.enlarged.rejecting b.newSlot clock) tries result q)
    (ht : b.table.IsSound) (hi : b.table.count .idle = 0) (hl : b.table.live < b.config.maxCount)
    (hf : (b.user.factory.nth 0).outcome.error? = none) (hc : b.config.checkOnAccess = true)
    (hr : Verdict.objection? (b.user.checked b.config.checkTimeout b.made) = some reason)
    (hle : b.clock.read.now ≤ clock.now) : Acquiring first deeds b (tries + 1) result q := by
  obtain ⟨tried, remaining, created, supply, c, hacquires, hq⟩ := h
  obtain ⟨rfl, rfl, hmore⟩ := hacquires.recreate ht hi hl hf hc hr hle
  refine ⟨[], b.table, _, supply, c, hmore, ?_⟩
  rw [accessStyle_rejecting, List.append_assoc, List.append_assoc] at hq
  simp only [acquireDeeds, List.flatMap_cons, List.flatMap_nil, List.nil_append,
    List.append_assoc] at hq ⊢
  exact hq

/-- A search that comes to nothing is refused, after the calls that were made for it. -/
theorem doing_refusal {supply : Supply} {user : UserCode} {calls deeds' : List Entry} {tries : Nat}
    (h : first.Does deeds' { b with user } p) (hcalls : deeds' = deeds ++ calls)
    (hf : supply.Follows b.config.maxCount tries b.user.factory b.table 0)
    (hs : supply.slot? = none)
    (hd : ∀ inUse max, supply.deeds b.accessStyle inUse max =
      calls ++ [.event (.poolExhausted inUse max), .hook .exhausted])
    (nested : Op → PoolM Reply) :
    Doing first (refuse nested) p fun error q =>
      Acquiring first deeds b tries (.error error) q := by
  refine (doing_refuse h nested).weaken ?_
  rintro _ q ⟨rfl, desired, hook, hq⟩
  rw [hcalls, List.append_assoc, ← hd] at hq
  refine ⟨[], b.table, [], supply, _, ?_, hq⟩
  exact .of_refusal hf hs (Nat.le_refl _) rfl rfl rfl rfl rfl

/-- A round that finds an idle slot hands it out, or rejects it and goes on. -/
theorem doing_round_of_idle (h : first.Does deeds b p) (ht : b.table.IsSound)
    (hs : b.table.firstIdle? = some s) {rounds rejected tries : Nat}
    (hnext : ∀ {deeds : List Entry} {clock : Clock} {q : Pool},
      first.Does deeds (b.rejecting s clock) q →
        Doing first (acquireRounds nested rounds rejected) q
          (Acquiring first deeds (b.rejecting s clock) tries)) :
    Doing first (acquireRounds nested (rounds + 1) rejected) p (Acquiring first deeds b tries) := by
  refine (doing_claim_of_some h hs).bind ?_
  rintro _ q ⟨rfl, hq⟩
  by_cases hhealthy : b.config.checkOnAccess = true →
      b.user.checked b.config.checkTimeout s.resource = .ok .healthy
  · refine (doing_passes_of_healthy hq hhealthy nested).bind ?_
    rintro _ r ⟨rfl, time, user, clock, hsince, htill, hr⟩
    refine (doing_handOut hr nested s.id s.resource).bind ?_
    rintro _ u ⟨rfl, desired, hook, hu⟩
    rw [List.append_assoc] at hu
    refine .pure ⟨[], b.table, [], .idle s, _, ?_, hu⟩
    exact .of_idle hs hhealthy hsince htill (Table.modify_setState _ _ _) rfl rfl rfl rfl
  · obtain ⟨hc, reason, hreason⟩ := exists_objection hhealthy
    have hinvalid : ((b.table.setState s.id .inUse).invalidate s.id).1 =
        some { s with state := .invalid } := by
      rw [Table.invalidate_setState]
      exact (ht.isWith_firstIdle? hs).invalidate_fst
    refine (doing_passes_of_objection hq hc hreason hinvalid nested).bind ?_
    rintro _ r ⟨rfl, clock, hle, hr⟩
    rw [rejecting_claimed] at hr
    refine (doing_letGo hr nested _).bind fun _ u hu => (hnext hu).weaken fun result v hv => ?_
    exact hv.reject hs hc hreason hle

/-- A reservation for a new resource is made if there is room. -/
theorem doing_reserve_one (h : first.Does deeds b p) (ht : b.table.Suits b.config.maxCount)
    (hroom : b.table.live < b.config.maxCount) :
    Doing first (reserve .acquire 1) p fun granted q => granted = 1 ∧
      first.Does deeds (b.withTable { b.table with creating := b.table.creating + 1 }) q := by
  refine (doing_reserve h ht .acquire 1).weaken ?_
  rintro _ q ⟨rfl, hq⟩
  have hone : min 1 (b.config.maxCount - b.table.live) = 1 := by omega
  rw [hone] at hq ⊢
  exact ⟨rfl, hq⟩

/-- A new resource is claimed if the factory call succeeds. -/
theorem doing_create_of_success
    (h : first.Does deeds (b.withTable { b.table with creating := b.table.creating + 1 }) p)
    (ht : b.table.Suits b.config.maxCount) (hi : b.table.count .idle = 0)
    (hroom : b.table.live < b.config.maxCount) (hopen : b.closed = false)
    (hmax : first.config.maxCount = b.config.maxCount)
    (hf : (b.user.factory.nth 0).outcome.error? = none) (nested : Op → PoolM Reply) :
    Doing first (createResource nested .inUse .acquire) p fun result q =>
      result = .ok (some (b.newSlot.id, b.newSlot.resource)) ∧
        first.Does (deeds ++ creationDeeds .acquire b.newSlot.id 1 none) b.enlarged q := by
  have hlive := ht.live_grant (n := 1) (Nat.sub_pos_of_lt hroom)
  have hlacks : { b.table with creating := b.table.creating + 1 }.Lacks first.config.maxCount :=
    ⟨hi, Nat.succ_pos _, hmax ▸ hlive.trans_le hroom⟩
  refine (doing_createResource_of_success h (fun _ => hlacks) hf hopen nested .inUse).weaken ?_
  rintro _ q ⟨rfl, hq⟩
  have hcommitted : { b.enlarged with
      table := ({ b.table with creating := b.table.creating + 1 }.commit b.made .inUse
        b.clock.read.now).2 } = b.enlarged :=
    congrArg (fun table : Table Nat => { b.enlarged with table }) (Table.commit_reserved ..)
  exact ⟨rfl, hcommitted ▸ hq⟩

/-- A failed creation is reported and gives its reservation back. -/
theorem doing_create_of_failure
    (h : first.Does deeds (b.withTable { b.table with creating := b.table.creating + 1 }) p)
    (ht : b.table.Suits b.config.maxCount) (hi : b.table.count .idle = 0)
    (hroom : b.table.live < b.config.maxCount) (hmax : first.config.maxCount = b.config.maxCount)
    (hp : ∀ panic, (b.user.factory.nth 0).outcome ≠ .panic panic) {error : CreationError}
    (hf : (b.user.factory.nth 0).outcome.error? = some error) (nested : Op → PoolM Reply) :
    Doing first (createResource nested .inUse .acquire) p fun result q => result = .error error ∧
      first.Does (deeds ++ creationDeeds .acquire 0 0 (some error))
        { b with user := b.user.afterFactory 1 } q := by
  have hlive := ht.live_grant (n := 1) (Nat.sub_pos_of_lt hroom)
  have hlacks : { b.table with creating := b.table.creating + 1 }.Lacks first.config.maxCount :=
    ⟨hi, Nat.succ_pos _, hmax ▸ hlive.trans_le hroom⟩
  exact doing_createResource_of_failure h (fun _ => hlacks) (fun _ => hp) hf (Nat.succ_pos _) nested
    .inUse

/-- A round that finds no idle slot and no room is the last. -/
theorem doing_round_of_full (h : first.Does deeds b p) (ht : b.table.Suits b.config.maxCount)
    (hs : b.table.firstIdle? = none) (hfull : b.config.maxCount ≤ b.table.live)
    (nested : Op → PoolM Reply) (rounds rejected tries : Nat) :
    Doing first (acquireRounds nested (rounds + 1) rejected) p (Acquiring first deeds b tries) := by
  refine (doing_claim_of_none h hs).bind ?_
  rintro _ q ⟨rfl, hq⟩
  refine (doing_reserve hq ht .acquire 1).bind ?_
  rintro _ r ⟨rfl, hr⟩
  have hzero : min 1 (b.config.maxCount - b.table.live) = 0 := by omega
  rw [hzero] at hr ⊢
  have hnone : Supply.full.Follows b.config.maxCount tries b.user.factory b.table 0 :=
    .full (Table.firstIdle?_eq_none_iff.1 hs) hfull rfl
  exact (doing_refusal hr (List.append_nil _).symm hnone rfl (fun _ _ => rfl) nested).bind
    fun _ _ hu => .pure hu

/-- So is a round whose factory call fails. -/
theorem doing_round_of_failure (h : first.Does deeds b p) (ht : b.table.Suits b.config.maxCount)
    (hs : b.table.firstIdle? = none) (hroom : b.table.live < b.config.maxCount)
    (hmax : first.config.maxCount = b.config.maxCount)
    (hf : ∀ panic, (b.user.factory.nth 0).outcome ≠ .panic panic) {error : CreationError}
    (hcall : (b.user.factory.nth 0).outcome.error? = some error) {tries : Nat} (hpos : 0 < tries)
    (nested : Op → PoolM Reply) (rounds rejected : Nat) :
    Doing first (acquireRounds nested (rounds + 1) rejected) p (Acquiring first deeds b tries) := by
  have hi := Table.firstIdle?_eq_none_iff.1 hs
  refine (doing_claim_of_none h hs).bind ?_
  rintro _ q ⟨rfl, hq⟩
  refine (doing_reserve_one hq ht hroom).bind ?_
  rintro _ r ⟨rfl, hr⟩
  refine (doing_create_of_failure hr ht hi hroom hmax hf hcall nested).bind ?_
  rintro _ u ⟨rfl, hu⟩
  have hfailed := Supply.Follows.failed hi hroom hpos nofun hcall
  exact (doing_refusal hu rfl hfailed rfl (fun _ _ => rfl) nested).bind fun _ _ hv => .pure hv

/-- A round that creates a new resource hands it out, or rejects it and goes on unless it was the
last that it may try. -/
theorem doing_round_of_creation (h : first.Does deeds b p) (ht : b.table.Suits b.config.maxCount)
    (hopen : b.closed = false) (hs : b.table.firstIdle? = none)
    (hroom : b.table.live < b.config.maxCount) (hmax : first.config.maxCount = b.config.maxCount)
    (hcall : (b.user.factory.nth 0).outcome.error? = none) {rounds rejected tries : Nat}
    (htries : rejected + (tries + 1) = b.config.maxCount)
    (hnext : ∀ {deeds : List Entry} {clock : Clock} {q : Pool}, 0 < tries →
      first.Does deeds (b.enlarged.rejecting b.newSlot clock) q →
        Doing first (acquireRounds nested rounds (rejected + 1)) q
          (Acquiring first deeds (b.enlarged.rejecting b.newSlot clock) tries)) :
    Doing first (acquireRounds nested (rounds + 1) rejected) p
      (Acquiring first deeds b (tries + 1)) := by
  have hi := Table.firstIdle?_eq_none_iff.1 hs
  refine (doing_claim_of_none h hs).bind ?_
  rintro _ q ⟨rfl, hq⟩
  refine (doing_reserve_one hq ht hroom).bind ?_
  rintro _ r ⟨rfl, hr⟩
  refine (doing_create_of_success hr ht hi hroom hopen hmax hcall nested).bind ?_
  rintro _ u ⟨rfl, hu⟩
  have hverdict : b.enlarged.user.checked b.enlarged.config.checkTimeout b.newSlot.resource =
      b.user.checked b.config.checkTimeout b.made := UserCode.checked_afterFactory ..
  by_cases hhealthy : b.config.checkOnAccess = true →
      b.user.checked b.config.checkTimeout b.made = .ok .healthy
  · refine (doing_passes_of_healthy hu (hverdict ▸ hhealthy) nested).bind ?_
    rintro _ v ⟨rfl, time, user, clock, hsince, htill, hv⟩
    refine (doing_handOut hv nested b.newSlot.id b.newSlot.resource).bind ?_
    rintro _ w ⟨rfl, desired, hook, hw⟩
    rw [List.append_assoc deeds, List.append_assoc deeds] at hw
    refine .pure ⟨[], b.table, [], .fresh b.newSlot, _, ?_, hw⟩
    exact .of_fresh hi hroom (Nat.succ_pos _) hcall hhealthy b.clock.now_le_read hsince htill
      (ht.toIsSound.modify_enter rfl _) rfl rfl rfl rfl
  · obtain ⟨hc, reason, hreason⟩ := exists_objection hhealthy
    refine (doing_passes_of_objection hu hc (hverdict ▸ hreason)
      (congrArg Prod.fst (ht.toIsSound.invalidate_enter rfl)) nested).bind ?_
    rintro _ v ⟨rfl, clock, hle, hv⟩
    rw [hverdict] at hv
    have hconfig : v.config = b.config := congrArg (·.config) hv.bench
    refine .read ?_
    rw [hconfig]
    by_cases hlast : b.config.maxCount ≤ rejected + 1
    · obtain rfl : tries = 0 := by omega
      rw [if_pos hlast]
      have htable := Bench.table_rejecting_enlarged ht.toIsSound clock
      let c := b.enlarged.rejecting b.newSlot clock
      have hspent : Supply.spent.Follows c.config.maxCount 0 c.user.factory c.table 0 :=
        .spent (htable ▸ hi) (htable ▸ hroom) rfl nofun
      refine (doing_refusal (b := c) hv (List.append_nil _).symm hspent rfl (fun _ _ => rfl)
        nested).bind ?_
      rintro error w ⟨tried, remaining, created, supply, d, hacquires, hw⟩
      refine (doing_letGo hw nested _).bind fun _ x hx => .pure ?_
      exact Acquiring.recreate ⟨tried, remaining, created, supply, d, hacquires, hx⟩ ht.toIsSound hi
        hroom hcall hc hreason hle
    · rw [if_neg hlast]
      refine (doing_letGo hv nested _).bind fun _ w hw => ?_
      refine (hnext (by omega) hw).weaken fun result x hx => ?_
      exact hx.recreate ht.toIsSound hi hroom hcall hc hreason hle

/-- The rounds of an acquisition, of which there are more than idle slots and new resources that it
may try. -/
theorem doing_acquireRounds (h : first.Does deeds b p) (ht : b.table.Suits b.config.maxCount)
    (hopen : b.closed = false) (hmax : first.config.maxCount = b.config.maxCount)
    (hf : ∀ n panic, (b.user.factory.nth n).outcome ≠ .panic panic) (nested : Op → PoolM Reply)
    {rounds rejected tries : Nat} (htries : rejected + tries = b.config.maxCount)
    (hpos : 0 < b.config.maxCount → 0 < tries)
    (hrounds : b.table.count .idle + tries < rounds) :
    Doing first (acquireRounds nested rounds rejected) p (Acquiring first deeds b tries) := by
  induction rounds generalizing p deeds b rejected tries with
  | zero => exact absurd hrounds (Nat.not_lt_zero _)
  | succ rounds ih =>
    cases hs : b.table.firstIdle? with
    | some s =>
      refine doing_round_of_idle h ht.toIsSound hs fun {_ clock _} hq => ?_
      have hsame := b.factory_rejecting s clock
      have hleft := ht.prune (Table.prunes_invalidate ht.nodup s.id)
      refine ih hq hleft hopen hmax (hsame ▸ hf) htries hpos ?_
      have hcount : (b.rejecting s clock).table.count .idle + 1 = _ := ht.count_invalidate hs
      omega
    | none =>
      -- Without idle slots each round but the last uses up one of the tries.
      rcases Nat.lt_or_ge b.table.live b.config.maxCount with hroom | hfull
      · obtain ⟨more, rfl⟩ : ∃ more, tries = more + 1 :=
          Nat.exists_eq_succ_of_ne_zero (Nat.ne_of_gt (hpos (Nat.zero_lt_of_lt hroom)))
        cases hcall : (b.user.factory.nth 0).outcome.error? with
        | some error =>
          exact doing_round_of_failure h ht hs hroom hmax (hf 0) hcall (Nat.succ_pos _) nested
            rounds rejected
        | none =>
          refine doing_round_of_creation h ht hopen hs hroom hmax hcall htries
            fun {_ clock _} hmore hq => ?_
          have htable := Bench.table_rejecting_enlarged ht.toIsSound clock
          have hcount : (b.enlarged.rejecting b.newSlot clock).table.count .idle =
              b.table.count .idle := congrArg (·.count .idle) htable
          refine ih hq ?_ hopen hmax (fun n panic => ?_) ?_ (fun _ => hmore) ?_
          · rw [htable]
            exact {
              nodup := ht.nodup
              fresh := fun s hs => Nat.lt_succ_of_lt (ht.fresh s hs)
              valid := ht.valid
              bounded := ht.bounded
              max_le := ht.max_le }
          · rw [Bench.factory_rejecting]
            have := hf (1 + n) panic
            rwa [← Routine.nth_skip] at this
          · change rejected + 1 + more = b.config.maxCount
            omega
          · omega
      · exact doing_round_of_full h ht hs hfull nested rounds rejected tries

end PoolM

namespace Pool

open PoolM (acquire)

variable {p q : Pool} {tried created : List Trial} {remaining : Table Nat} {supply : Supply}
  {result : Except PoolError Lease}

/-- What an acquisition does from one pool to another. It rejects the idle slots `tried`, each of
them once, then creates and rejects new resources, and comes to a supply. -/
structure Searches (p : Pool) (tried : List Trial) (remaining : Table Nat) (created : List Trial)
    (supply : Supply) (result : Except PoolError Lease) (q : Pool) : Prop where
  acquires : p.bench.Acquires p.config.maxCount tried remaining created supply result q.bench
  idle : ∀ t ∈ tried, t.slot.state = .idle
  once : (tried.map (·.slot.id)).Nodup
  parts : p.table.slots.Perm (tried.map (·.slot) ++ remaining.slots)
  creating : remaining.creating = p.table.creating
  deeds : q.deedsSince p = acquireDeeds p.bench.accessStyle (remaining.count .inUse)
    p.config.maxCount tried created supply
  calls : (q.deedsSince p).countP (·.isFactory) ≤ p.config.maxCount
  needed : ∀ r ∈ q.recordsSince p, r.entry = .factory .acquire →
    r.seen.table.Lacks p.config.maxCount

/-- An acquisition from an open pool whose user code runs no operation and whose factory does not
panic ends, and it hands out the first resource that passes. -/
theorem Arises.acquire_searches (hp : p.Arises) (hu : p.user.IsQuiet) (hopen : p.closed = false)
    (hf : ∀ n panic, (p.user.factory.nth n).outcome ≠ .panic panic) (nested : Op → PoolM Reply)
    (rounds : Nat) (hrounds : p.table.count .idle + p.config.maxCount < rounds)
    (hpanic : ¬p.Panics (acquire nested rounds p).2) :
    ∃ result q, acquire nested rounds p = (.done result, q) ∧
      ∃ tried remaining created supply, p.Searches tried remaining created supply result q := by
  have hsound := hp.fits.sound
  have hacquiring : PoolM.Doing p (acquire nested rounds) p
      (PoolM.Acquiring p [] p.bench p.config.maxCount) := by
    refine .read ?_
    rw [hopen]
    exact PoolM.doing_acquireRounds (.start hu) hp.fits.suits hopen rfl hf nested
      (Nat.zero_add _) id hrounds
  obtain ⟨result, q, hacquire, tried, remaining, created, supply, c, hacquires, hq⟩ :=
    hacquiring.exists_done fun _ hfails => hpanic hfails.panics
  obtain ⟨-, hparts, hidle, hcreating, -⟩ := hacquires.order.parts hsound
  refine ⟨result, q, hacquire, tried, remaining, created, supply, ?_⟩
  exact {
    acquires := hq.bench ▸ hacquires
    idle := fun t ht => hidle _ (List.mem_map_of_mem ht)
    once := by
      have hids := (hparts.map Slot.id).nodup_iff.1 hsound.nodup
      rw [List.map_append, List.map_map] at hids
      exact (List.nodup_append.1 hids).1
    parts := hparts
    creating := hcreating
    deeds := hq.deeds
    calls := by
      rw [hq.deeds]
      exact hacquires.supplied.calls_le ..
    needed := hq.needed }

/-- The only idle resource is rejected, and a new one is handed out. -/
theorem acquire_searches_rejected :
    let unhealthy : CheckRoutine := ⟨[], ⟨[], .answer (.ok (.unhealthy "worn"))⟩⟩
    let user : UserCode :=
      { UserCode.plain with checkStyle := some .direct, checks := [(0, unhealthy)] }
    let config : Config :=
      { desiredCount := 1, maxCount := 2, careEnabled := true, checkOnAccess := true }
    let p := (PoolM.run 2 .keeper (new "pool" config user)).2
    let q := (acquire (PoolM.run 1) 4 p).2
    ∃ tried remaining created supply,
      p.Searches tried remaining created supply (.ok { id := 0, slot := 2, resource := 1 }) q := by
  intro unhealthy user config p q
  have huser : ∀ P : Op → Prop, user.Runs P := fun P =>
    { UserCode.plain_runs P with
      check := fun c hc op hop => by
        obtain rfl : c = (0, unhealthy) := List.mem_singleton.1 hc
        exact absurd hop List.not_mem_nil }
  have hstart : (new "pool" config user).Reachable := reachable_new "pool" _ (huser _) (by decide)
  have hp : p.Reachable := hstart.next (.of_installs_eq_nil rfl rfl) (by decide +kernel)
  have hsame : p.user = user := rfl
  have hresult : (acquire (PoolM.run 1) 4 p).1 =
      .done (.ok { id := 0, slot := 2, resource := 1 }) := by
    decide +kernel
  obtain ⟨result, q', hacquire, hsearches⟩ := hp.arises.acquire_searches (hsame ▸ huser _)
    (by decide +kernel) (fun n panic => by rw [hsame]; nofun) (PoolM.run 1) 4
    (by decide +kernel) (by decide +kernel)
  obtain rfl : q = q' := congrArg Prod.snd hacquire
  obtain rfl := Outcome.done.inj ((congrArg Prod.fst hacquire).symm.trans hresult)
  exact hsearches

end Pool

end LeasePool
