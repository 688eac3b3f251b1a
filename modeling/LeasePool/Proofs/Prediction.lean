import LeasePool.Proofs.Acquisition
import LeasePool.Proofs.OwnDeeds
import LeasePool.Proofs.Reservations
import LeasePool.Proofs.Shutdown

/-!
# What a status tells of the next acquisition

A status counts the slots by state, while a reservation asks for the live resources. Between two
operations the two agree, whatever reservations callers hold meanwhile, so the status of an open
pool without checks on access settles what its next acquisition does: it hands out an idle slot,
creates the one resource that it hands out, or is refused. Nothing is asked of the health check, as
it is not called, and the factory may run any operations as long as it gives a resource.
-/

namespace LeasePool

/-- There is no capacity for another resource if as many are live as the maximum. -/
theorem Table.reserve_one_eq_zero_iff (t : Table Nat) (max : Nat) :
    (t.reserve 1 max).1 = 0 ↔ max ≤ t.live := by
  change min 1 (max - t.live) = 0 ↔ max ≤ t.live
  omega

/-- Whether a call of the factory has given a resource. -/
def Outcome.isProduct : Outcome (Except CreationError Nat) → Bool
  | .done (.ok _) => true
  | _ => false

/-- A product is some resource. -/
theorem Outcome.exists_of_isProduct {ending : Outcome (Except CreationError Nat)}
    (h : ending.isProduct = true) : ∃ resource, ending = .done (.ok resource) := by
  unfold isProduct at h
  split at h
  · exact ⟨_, rfl⟩
  · cases h

namespace Pool

variable {p q r : Pool}

/-- The pool in which an acquisition calls the factory: capacity is reserved for one resource. -/
def reservedOne (p : Pool) : Pool :=
  { p with
    table := { p.table with creating := p.table.creating + 1 }
    holdings := .reservation :: p.holdings }.note (.reserved .acquire 1)

/-- A pool in which a resource that the factory has made is claimed by an acquisition. -/
def enrolled (resource : Nat) (p : Pool) : Pool :=
  { p with
    clock := p.clock.read
    table := (p.table.commit resource .inUse p.clock.read.now).2
    holdings := .slot .claim p.table.nextId resource ::
      (p.holdings.erase (.product resource)).erase .reservation
    tally := p.tally.bump .created }.note (.event (.resourceCreated p.table.nextId .acquire))

/-- What has been done from one state of a pool to a later one. -/
structure Recounts (p : Pool) (deeds : List Entry) (q : Pool) : Prop where
  history : p.history <:+ q.history
  deeds : q.deedsSince p = deeds

/-- An idle slot is handed out, and the factory is not called. -/
structure Reuses (p : Pool) (s : Slot Nat) (lease : Lease) (q : Pool) : Prop where
  mem : s ∈ p.table.slots
  idle : s.state = .idle
  lease : lease = { id := p.nextLease, slot := s.id, resource := s.resource }
  table : q.table = p.table.setState s.id .inUse
  made : q.made = p.made
  deeds : p.Recounts [.hook .acquired, .handedOut s.id s.resource] q

/-- Nothing is handed out, and the factory is not called. -/
structure Refuses (p : Pool) (error : PoolError) (q : Pool) : Prop where
  error : error = .exhausted p.status.inUse p.status.max
  table : q.table = p.table
  made : q.made = p.made
  deeds : p.Recounts [.event (.poolExhausted p.status.inUse p.status.max), .hook .exhausted] q

/-- The factory is called once, for one resource. If it runs no operation of its own, that resource
is all that changes. -/
structure CallsOnce (nested : Op → PoolM Reply) (p : Pool) (resource : Nat) (r : Pool) : Prop where
  called : PoolM.callFactory nested .acquire p.reservedOne = (.done (.ok resource), r)
  made : r.made = resource + 1
  own : r.ownDeedsSince p = [.factory .acquire]
  alone : (p.user.factory.nth 0).during = [] →
    r.table = p.reservedOne.table ∧ r.closed = p.closed ∧ resource = p.made

/-- What an acquisition does with the one resource that it creates. -/
inductive Creates (nested : Op → PoolM Reply) (p : Pool) :
    Outcome (Except PoolError Lease) → Pool → Prop
  | handedOut {resource : Nat} {r q : Pool} (hr : p.CallsOnce nested resource r)
      (hopen : r.closed = false) (table : q.table = (r.enrolled resource).table)
      (made : q.made = r.made)
      (deeds : r.Recounts [.event (.resourceCreated r.table.nextId .acquire), .hook .acquired,
        .handedOut r.table.nextId resource] q) :
      p.Creates nested (.done (.ok { id := r.nextLease, slot := r.table.nextId, resource })) q
  /-- An operation inside of the factory has closed the pool, so the resource is let go of. What
  remains is what its destructor does. -/
  | letGo {resource : Nat} {r left q : Pool} {parting : List Op × Bool}
      {ending : Outcome (Except PoolError Lease)} (hr : p.CallsOnce nested resource r)
      (hclosed : r.closed = true) (hleft : r.Discards resource left)
      (hp : parting = ([], false) ∨
        parting = (r.user.destructor resource, r.brittle.contains resource))
      (hrun : (do
        PoolM.part nested resource parting
        pure (.error .closed) : PoolM (Except PoolError Lease)) left = (ending, q)) :
      p.Creates nested ending q

end Pool

/-- What a status tells of an acquisition from a pool. -/
structure Status.Predicts (s : Status) (nested : Op → PoolM Reply) (p : Pool)
    (m : PoolM (Except PoolError Lease)) : Prop where
  full : s.atCapacity = true ↔ (p.table.reserve 1 p.config.maxCount).1 = 0
  exhausted : (∃ inUse max q, m p = (.done (.error (.exhausted inUse max)), q)) ↔
    s.idle = 0 ∧ s.atCapacity = true
  refuses : s.idle = 0 → s.atCapacity = true →
    ∃ error q, m p = (.done (.error error), q) ∧ p.Refuses error q
  reuses : 0 < s.idle → ∃ slot lease q, m p = (.done (.ok lease), q) ∧ p.Reuses slot lease q
  creates : s.idle = 0 → s.atCapacity = false → p.Creates nested (m p).1 (m p).2

namespace Pool

variable {p q r : Pool}

/-- Deeds are recounted one stretch after another. -/
theorem Recounts.trans {deeds others : List Entry} (h : p.Recounts deeds q)
    (h' : q.Recounts others r) : p.Recounts (deeds ++ others) r where
  history := h.history.trans h'.history
  deeds := by
    rw [← h.deeds, ← h'.deeds, deedsSince, recordsSince_trans h.history h'.history, List.map_append,
      List.filter_append]
    rfl

/-- One more record tells of one more deed. -/
theorem Recounts.deed {e : Entry} {record : Record} (h : q.history = record :: p.history)
    (he : record.entry = e) (hd : e.isDeed = true) : p.Recounts [e] q where
  history := h ▸ List.suffix_cons _ _
  deeds := by
    rw [deedsSince, recordsSince_cons h, List.map_singleton, he]
    exact List.filter_cons_of_pos hd

/-- One more record tells of no deed. -/
theorem Recounts.remark {record : Record} (h : q.history = record :: p.history)
    (hd : record.entry.isDeed = false) : p.Recounts [] q where
  history := h ▸ List.suffix_cons _ _
  deeds := by
    rw [deedsSince, recordsSince_cons h, List.map_singleton]
    exact List.filter_cons_of_neg (Bool.eq_false_iff.1 hd)

end Pool

namespace PoolM

variable {p q r : Pool} {s : Slot Nat} {nested : Op → PoolM Reply} {resource : Nat}

section Factory

/-- A factory call that gives a resource has made it as its last deed. -/
theorem exists_rests_of_callFactory {budget : Nat} {origin : Origin}
    (h : callFactory (run budget) origin p = (.done (.ok resource), r)) :
    ∃ q, (p.note (.factory origin)).Rests q ∧ resource = q.made ∧
      r = { q with made := q.made + 1 }.hold (.product q.made) := by
  obtain ⟨_, _, ⟨⟩, hfrom⟩ := exists_of_bind_eq_done h
  obtain ⟨behaviour, called, hcalled, hinside⟩ := exists_of_bind_eq_done hfrom
  obtain ⟨_, q, hended, houtcome⟩ := exists_of_bind_eq_done hinside
  have hpool : called = { p.note (.factory origin) with
      user := { p.user with factory := p.user.factory.next.2 } } :=
    (congrArg Prod.snd hcalled).symm
  have hstart : (p.note (.factory origin)).Rests called := by
    rw [hpool]
    exact .of_frame rfl
  have hrests := hstart.trans ((rests_runInside budget _ called).of_done hended)
  cases ho : behaviour.outcome with
  | success =>
    rw [ho] at houtcome
    cases houtcome
    exact ⟨q, hrests, rfl, rfl⟩
  | failure | panic =>
    rw [ho] at houtcome
    cases houtcome

/-- However many resources the operations inside of the factory create, the acquisition creates one
itself. -/
theorem callsOnce_of_callFactory {budget : Nat}
    (h : callFactory (run budget) .acquire p.reservedOne = (.done (.ok resource), r)) :
    p.CallsOnce (run budget) resource r where
  called := h
  made := by
    obtain ⟨q, -, rfl, rfl⟩ := exists_rests_of_callFactory h
    rfl
  own := by
    obtain ⟨q, hq, -, rfl⟩ := exists_rests_of_callFactory h
    have hreserved : p.history <:+ p.reservedOne.history := List.suffix_cons _ _
    have hcalled : p.reservedOne.history <:+ (p.reservedOne.note (.factory .acquire)).history :=
      List.suffix_cons _ _
    have hown : q.ownDeedsSince p.reservedOne = [.factory .acquire] := by
      rw [Pool.ownDeedsSince_trans hcalled hq.history rfl, hq.own,
        Pool.ownDeedsSince_note_self]
      rfl
    have hnone : p.reservedOne.ownDeedsSince p = [] := Pool.ownDeedsSince_note_self { p with
      table := { p.table with creating := p.table.creating + 1 }
      holdings := .reservation :: p.holdings } _
    change q.ownDeedsSince p = _
    rw [Pool.ownDeedsSince_trans hreserved (hcalled.trans hq.history) rfl, hown, hnone]
    rfl
  alone hd := by
    have hcall := callFactory_of_during (p := p.reservedOne) hd (run budget) .acquire
    rw [h] at hcall
    cases ho : (p.reservedOne.user.factory.nth 0).outcome with
    | success =>
      rw [ho] at hcall
      cases hcall
      exact ⟨rfl, rfl, rfl⟩
    | failure | panic =>
      rw [ho] at hcall
      cases hcall

end Factory

section Creation

/-- A resource that the factory gives is claimed if the pool is still open. -/
theorem createResource_of_open (h : callFactory nested .acquire p = (.done (.ok resource), r))
    (hopen : r.closed = false) : createResource nested .inUse .acquire p =
      (.done (.ok (some (r.table.nextId, resource))), r.enrolled resource) := by
  unfold createResource
  rw [produce, bind_of_done h]
  dsimp only
  rw [bind_of_done (read_apply ..), hopen]
  rfl

end Creation

section Hooks

variable (hq : p.user.hook.Runs fun _ => False)

include hq

/-- A callback of a hook that runs no operation is one deed. -/
theorem ends_callHook_once (nested : Op → PoolM Reply) (call : HookCall) :
    Ends (callHook nested call) p
      (fun _ q => q.table = p.table ∧ q.made = p.made ∧ q.nextLease = p.nextLease ∧
        p.Recounts [.hook call] q)
      fun _ q => p.HookPanics q := by
  have hcalled : p.Recounts [.hook call] (p.note (.hook call)) := .deed rfl rfl rfl
  refine (ends_callHook hq nested call).mono (fun _ q hq => ?_) ?_
  · have hdeeds := (hq.deedsSince hcalled.history).trans hcalled.deeds
    have hhistory := hcalled.history.trans hq.history
    obtain ⟨desired, hook, remarks, rfl, -⟩ := hq.parts
    exact ⟨rfl, rfl, rfl, hhistory, hdeeds⟩
  · rintro _ _ ⟨r, hr, rfl⟩
    exact Pool.hookPanics_note (hcalled.history.trans hr.history) call

/-- A hand-out with a quiet hook gives the lease, or the hook has panicked. -/
theorem ends_handOut (nested : Op → PoolM Reply) (id resource : Nat) :
    Ends (handOut nested id resource) p
      (fun lease q => lease = { id := p.nextLease, slot := id, resource } ∧ q.table = p.table ∧
        q.made = p.made ∧ p.Recounts [.hook .acquired, .handedOut id resource] q)
      fun _ q => p.HookPanics q := by
  let counted : Pool := { p with tally := p.tally.bump .acquired }.exchange
    (.slot .claim id resource) (.slot .handOver id resource)
  refine .change ((ends_callHook_once (p := counted) hq nested .acquired).bind ?_)
  rintro _ q ⟨htable, hmade, hlease, htells⟩
  refine .of_done rfl ⟨?_, htable, hmade, ?_⟩
  · exact congrArg (fun n => ({ id := n, slot := id, resource } : Lease)) hlease
  · have hbegun : q.Recounts [.handedOut id resource] (beginLease id resource q).2 :=
      .deed rfl rfl rfl
    have hall := htells.trans hbegun
    exact ⟨hall.history, hall.deeds⟩

/-- A refusal with a quiet hook tells the status that was seen, or the hook has panicked. -/
theorem ends_refuse (nested : Op → PoolM Reply) :
    Ends (refuse nested) p
      (fun error q => error = .exhausted p.status.inUse p.status.max ∧ q.table = p.table ∧
        q.made = p.made ∧
        p.Recounts [.event (.poolExhausted p.status.inUse p.status.max), .hook .exhausted] q)
      fun _ q => p.HookPanics q := by
  let reported : Pool := { p with tally := p.tally.bump .exhausted }.note
    (.event (.poolExhausted p.status.inUse p.status.max))
  have hreported : p.Recounts [.event (.poolExhausted p.status.inUse p.status.max)] reported :=
    .deed rfl rfl rfl
  have hcall := (ends_callHook_once (p := reported) hq nested .exhausted).mono (fun _ _ => id)
    fun _ q hq => hq.since hreported.history
  refine .read (.read (.change (.change (hcall.bind ?_))))
  rintro _ q ⟨htable, hmade, -, htells⟩
  exact .pure ⟨rfl, htable, hmade, hreported.trans htells⟩

end Hooks

section Rounds

/-- Without checks on access every claimed slot passes. -/
theorem passes_of_unchecked (hc : p.config.checkOnAccess = false) (nested : Op → PoolM Reply)
    (id resource : Nat) : passes nested id resource p = (.done true, p) := by
  simp only [passes, bind_apply, read_apply, hc, Bool.false_eq_true, if_false, pure_apply]

/-- Nothing is reserved if as many resources are live as the maximum. -/
theorem reserve_one_of_full (ht : p.table.Suits p.config.maxCount)
    (hl : p.config.maxCount ≤ p.table.live) :
    reserve .acquire 1 p = (.done 0, p.note (.reserved .acquire 0)) := by
  have hgranted : min 1 (p.config.maxCount - p.table.live) = 0 := by omega
  simp only [reserve, update_apply, ht.reserve_eq, hgranted]
  rfl

/-- Below the maximum, one unit of capacity is granted. -/
theorem reserve_one_of_room (ht : p.table.Suits p.config.maxCount)
    (hl : p.table.live < p.config.maxCount) :
    reserve .acquire 1 p = (.done 1, p.reservedOne) := by
  have hgranted : min 1 (p.config.maxCount - p.table.live) = 1 := by omega
  simp only [reserve, update_apply, ht.reserve_eq, hgranted]
  rfl

/-- A round that finds an idle slot reuses it. -/
theorem ends_round_of_idle (hs : p.table.firstIdle? = some s)
    (hc : p.config.checkOnAccess = false) (hq : p.user.hook.Runs fun _ => False)
    (nested : Op → PoolM Reply) (rounds rejected : Nat) :
    Ends (acquireRounds nested (rounds + 1) rejected) p
      (fun result q => ∃ lease, result = .ok lease ∧ p.Reuses s lease q)
      fun _ q => p.HookPanics q := by
  let claimed := { p with table := p.table.setState s.id .inUse }.hold
    (.slot .claim s.id s.resource)
  have hpasses := passes_of_unchecked (p := claimed) hc nested s.id s.resource
  refine .next (claim_of_some hs) (.next hpasses ?_)
  refine (ends_handOut (p := claimed) hq nested s.id s.resource).bind ?_
  rintro lease q ⟨hlease, htable, hmade, htells⟩
  refine .pure ⟨lease, rfl, ?_⟩
  exact {
    mem := List.mem_of_find?_eq_some hs
    idle := Table.state_of_firstIdle? hs
    lease := hlease
    table := htable
    made := hmade
    deeds := ⟨htells.history, htells.deeds⟩ }

/-- A round that finds neither an idle slot nor capacity is refused. -/
theorem ends_round_of_full (ht : p.table.Suits p.config.maxCount)
    (hs : p.table.firstIdle? = none) (hl : p.config.maxCount ≤ p.table.live)
    (hq : p.user.hook.Runs fun _ => False) (nested : Op → PoolM Reply) (rounds rejected : Nat) :
    Ends (acquireRounds nested (rounds + 1) rejected) p
      (fun result q => ∃ error, result = .error error ∧ p.Refuses error q)
      fun _ q => p.HookPanics q := by
  let asked := p.note (.reserved .acquire 0)
  have hasked : p.Recounts [] asked := .remark rfl rfl
  have hrefuse := (ends_refuse (p := asked) hq nested).mono (fun _ _ => id)
    fun _ q hq => hq.since hasked.history
  refine .next (claim_of_none hs) (.next (reserve_one_of_full ht hl) (hrefuse.bind ?_))
  rintro error q ⟨herror, htable, hmade, htells⟩
  refine .pure ⟨error, rfl, ?_⟩
  exact {
    error := herror
    table := htable
    made := hmade
    deeds := hasked.trans htells }

/-- A round that finds only capacity creates a resource, and hands it out if the pool is still open
then. -/
theorem ends_round_of_room (ht : p.table.Suits p.config.maxCount)
    (hs : p.table.firstIdle? = none) (hl : p.table.live < p.config.maxCount)
    (hc : p.config.checkOnAccess = false) (hq : p.user.hook.Runs fun _ => False) {budget : Nat}
    (hcall : callFactory (run budget) .acquire p.reservedOne = (.done (.ok resource), r))
    (hopen : r.closed = false) (rounds rejected : Nat) :
    Ends (acquireRounds (run budget) (rounds + 1) rejected) p
      (fun result q => p.Creates (run budget) (.done result) q) fun _ q => p.HookPanics q := by
  have hkeeps : Keeps Pool.Clears (callFactory (run budget) .acquire) :=
    keeps_callFactory (answers_run budget) .acquire
  have hback : p.reservedOne.ComesBack r := (hkeeps.of_done hcall).toComesBack
  have hhistory : p.history <:+ r.history := (List.suffix_cons _ _).trans hback.history
  have htold : r.Recounts [.event (.resourceCreated r.table.nextId .acquire)]
      (r.enrolled resource) := .deed rfl rfl rfl
  have hchecked : (r.enrolled resource).config.checkOnAccess = false := hback.config ▸ hc
  have hquiet : (r.enrolled resource).user.hook.Runs fun _ => False := hback.hook _ hq
  have hhandOut := (ends_handOut hquiet (run budget) r.table.nextId resource).mono
    (fun _ _ => id) fun _ q hq => hq.since (hhistory.trans htold.history)
  refine .next (claim_of_none hs) (.next (reserve_one_of_room ht hl) ?_)
  refine .next (createResource_of_open hcall hopen) (.next (passes_of_unchecked hchecked ..) ?_)
  refine hhandOut.bind ?_
  rintro _ q ⟨rfl, htable, hmade, htells⟩
  exact .pure (.handedOut (callsOnce_of_callFactory hcall) hopen htable hmade (htold.trans htells))

/-- A round that finds only capacity creates a resource, and lets go of it if the pool has been
closed meanwhile. -/
theorem creates_round_of_closed (ht : p.table.Suits p.config.maxCount)
    (hs : p.table.firstIdle? = none) (hl : p.table.live < p.config.maxCount) {budget : Nat}
    (hcall : callFactory (run budget) .acquire p.reservedOne = (.done (.ok resource), r))
    (hclosed : r.closed = true) (rounds rejected : Nat) :
    p.Creates (run budget) (acquireRounds (run budget) (rounds + 1) rejected p).1
      (acquireRounds (run budget) (rounds + 1) rejected p).2 := by
  have hproduce : produce (run budget) .acquire p.reservedOne = (.done (.ok resource), r) := hcall
  obtain ⟨left, parting, hleft, hparting, hcreate⟩ :=
    createResource_of_closed .inUse hproduce hclosed
  have hround : acquireRounds (run budget) (rounds + 1) rejected p = (do
      part (run budget) resource parting
      pure (.error .closed) : PoolM (Except PoolError Lease)) left := by
    unfold acquireRounds
    rw [bind_of_done (claim_of_none hs)]
    dsimp only
    rw [bind_of_done (reserve_one_of_room ht hl), if_pos rfl, bind_apply, hcreate]
    simp only [bind_apply, pure_apply]
    generalize part (run budget) resource parting left = ending
    obtain ⟨_ | _ | _, _⟩ := ending <;> rfl
  exact .letGo (callsOnce_of_callFactory hcall) hclosed hleft hparting hround.symm

end Rounds

/-- In an open pool an acquisition goes through its rounds. -/
theorem acquire_of_open (hopen : p.closed = false) (nested : Op → PoolM Reply) (rounds : Nat) :
    acquire nested rounds p = acquireRounds nested rounds 0 p := by
  rw [acquire, bind_of_done (read_apply ..), hopen]
  rfl

end PoolM

namespace Pool

open PoolM (run acquire acquireRounds callFactory)

variable {p q : Pool} {callers budget rounds : Nat}

/-- An acquisition that creates is never refused for want of capacity. -/
theorem Creates.ending_ne_exhausted {nested : Op → PoolM Reply}
    {ending : Outcome (Except PoolError Lease)} (h : p.Creates nested ending q) (inUse max : Nat) :
    ending ≠ .done (.error (.exhausted inUse max)) := by
  rintro rfl
  cases h with
  | letGo _ _ _ _ hrun =>
    obtain ⟨_, _, -, hend⟩ := PoolM.exists_of_bind_eq_done hrun
    cases hend

/-- No slot of a pool within its maximum is invalid, so its status counts all that is live. -/
theorem Fits.atCapacity_iff (hp : p.Fits callers) :
    p.status.atCapacity = true ↔ p.config.maxCount ≤ p.table.live := by
  have hlive : p.status.live = p.table.live := live_status hp.sound.valid _ _
  rw [Status.atCapacity_iff, hlive]
  rfl

section Acquisition

variable (hp : p.Fits callers) (hopen : p.closed = false)
  (hc : p.config.checkOnAccess = false) (hq : p.user.hook.Runs fun _ => False)
  (hpanic : ¬p.HookPanics (acquire (run budget) (rounds + 1) p).2)

include hopen hc hq hpanic in
/-- With an idle slot an acquisition ends, and reuses it. -/
theorem exists_reuses (hsome : 0 < p.status.idle) :
    ∃ slot lease q, acquire (run budget) (rounds + 1) p = (.done (.ok lease), q) ∧
      p.Reuses slot lease q := by
  have hidle : p.table.firstIdle? ≠ none := mt Table.firstIdle?_eq_none_iff.1 hsome.ne'
  obtain ⟨slot, hslot⟩ := Option.ne_none_iff_exists'.1 hidle
  have hround := PoolM.ends_round_of_idle hslot hc hq (run budget) rounds 0
  rw [PoolM.acquire_of_open hopen] at hpanic ⊢
  obtain ⟨_, q, hend, lease, rfl, hreuses⟩ := hround.exists_done fun _ => hpanic
  exact ⟨slot, lease, q, hend, hreuses⟩

include hp hopen hq hpanic in
/-- At capacity and without an idle slot an acquisition ends, and is refused. -/
theorem Fits.exists_refuses (hnone : p.status.idle = 0) (hat : p.status.atCapacity = true) :
    ∃ error q, acquire (run budget) (rounds + 1) p = (.done (.error error), q) ∧
      p.Refuses error q := by
  have hround := PoolM.ends_round_of_full hp.suits (Table.firstIdle?_eq_none_iff.2 hnone)
    (hp.atCapacity_iff.1 hat) hq (run budget) rounds 0
  rw [PoolM.acquire_of_open hopen] at hpanic ⊢
  obtain ⟨_, q, hend, error, rfl, hrefuses⟩ := hround.exists_done fun _ => hpanic
  exact ⟨error, q, hend, hrefuses⟩

include hp hopen hc hq hpanic in
/-- With room and without an idle slot an acquisition creates, if the factory does. -/
theorem Fits.creates
    (hcall : (callFactory (run budget) .acquire p.reservedOne).1.isProduct = true)
    (hnone : p.status.idle = 0) (hat : p.status.atCapacity = false) :
    p.Creates (run budget) (acquire (run budget) (rounds + 1) p).1
      (acquire (run budget) (rounds + 1) p).2 := by
  have hroom : p.table.live < p.config.maxCount := by
    refine Nat.lt_of_not_le fun hle => ?_
    rw [hp.atCapacity_iff.2 hle] at hat
    cases hat
  have hidle : p.table.firstIdle? = none := Table.firstIdle?_eq_none_iff.2 hnone
  obtain ⟨resource, hproduct⟩ := Outcome.exists_of_isProduct hcall
  have hcall : callFactory (run budget) .acquire p.reservedOne =
      (.done (.ok resource), (callFactory (run budget) .acquire p.reservedOne).2) :=
    Prod.ext hproduct rfl
  rw [PoolM.acquire_of_open hopen] at hpanic ⊢
  by_cases hclosed : (callFactory (run budget) .acquire p.reservedOne).2.closed = true
  · exact PoolM.creates_round_of_closed hp.suits hidle hroom hcall hclosed rounds 0
  · obtain ⟨result, q, hend, hcreates⟩ := (PoolM.ends_round_of_room hp.suits hidle hroom hc hq hcall
      (eq_false_of_ne_true hclosed) rounds 0).exists_done fun _ => hpanic
    rw [hend]
    exact hcreates

include hp hopen hc hq hpanic in
/-- The status of a pool within its maximum tells what an acquisition does. -/
theorem Fits.predicts
    (hcall : p.status.idle = 0 → p.status.atCapacity = false →
      (callFactory (run budget) .acquire p.reservedOne).1.isProduct = true) :
    p.status.Predicts (run budget) p (acquire (run budget) (rounds + 1)) where
  full := hp.atCapacity_iff.trans (p.table.reserve_one_eq_zero_iff _).symm
  refuses := hp.exists_refuses hopen hq hpanic
  reuses := exists_reuses hopen hc hq hpanic
  creates hnone hat := hp.creates hopen hc hq hpanic (hcall hnone hat) hnone hat
  exhausted := by
    constructor
    · rintro ⟨inUse, max, q, hend⟩
      by_cases hnone : p.status.idle = 0
      · refine ⟨hnone, ?_⟩
        by_contra hat
        have hroom := Bool.eq_false_iff.2 hat
        have hcreates := hp.creates hopen hc hq hpanic (hcall hnone hroom) hnone hroom
        exact hcreates.ending_ne_exhausted inUse max (congrArg Prod.fst hend)
      · obtain ⟨slot, lease, r, hok, -⟩ :=
          exists_reuses hopen hc hq hpanic (Nat.pos_of_ne_zero hnone)
        rw [hend] at hok
        cases hok
    · rintro ⟨hnone, hat⟩
      obtain ⟨error, q, hend, hrefuses⟩ := hp.exists_refuses hopen hq hpanic hnone hat
      exact ⟨_, _, q, hrefuses.error ▸ hend⟩

end Acquisition

/-- Reservations of callers count as capacity that is taken. -/
theorem ReachableReserving.fits (hp : p.ReachableReserving) : p.Fits p.reserved := by
  obtain ⟨start, hstart, hchanges⟩ := hp.exists_start
  clear hp
  induction hchanges with
  | refl => exact hstart.fits
  | tail _ h ih => exact h.fits ih

/-- What a status that is read between two operations tells of an acquisition that the next one asks
for. -/
theorem ReachableReserving.status_predicts (hp : p.ReachableReserving) (op : Op)
    (budget rounds : Nat) (hopen : p.closed = false) (hc : p.config.checkOnAccess = false)
    (hq : p.user.hook.Runs fun _ => False)
    (hcall : p.status.idle = 0 → p.status.atCapacity = false →
      (callFactory (PoolM.run budget) .acquire (p.entered op).reservedOne).1.isProduct = true)
    (hpanic : ¬(p.entered op).HookPanics
      (acquire (PoolM.run budget) (rounds + 1) (p.entered op)).2) :
    p.status.Predicts (PoolM.run budget) (p.entered op)
      (acquire (PoolM.run budget) (rounds + 1)) := by
  have hfits : (p.entered op).Fits p.reserved := hp.fits.of_eq rfl rfl rfl
  exact hfits.predicts hopen hc hq hpanic hcall

/-- A caller holds a reservation, and the factory runs another acquisition while it makes a resource
for the first one. That leaves no capacity, but the two creations get what they have reserved. -/
theorem status_predicts_nested_acquisition :
    let user : UserCode :=
      { UserCode.plain with factory := ⟨[⟨[.acquire "inner"], .success⟩], ⟨[], .success⟩⟩ }
    let p := (PoolM.run 1 (.reserve 1) (new "pool" { maxCount := 3 } user)).2
    let q := (acquire (run 2) 2 (p.entered (.acquire "outer"))).2
    p.status.idle = 0 ∧ p.status.live = 1 ∧ p.status.atCapacity = false ∧
      (p.entered (.acquire "outer")).Creates (run 2)
        (.done (.ok { id := 1, slot := 2, resource := 1 })) q ∧
      q.status.live = 3 ∧ q.status.atCapacity = true := by
  intro user p q
  have huser : user.IsPublic :=
    { UserCode.plain_runs _ with
      factory := List.forall_mem_singleton.2 (.of_installs_eq_nil rfl rfl) }
  have hstart : (new "pool" { maxCount := 3 } user).ReachableReserving :=
    .create (.intro "pool" _ user false {} huser (by decide))
  have hp : p.ReachableReserving := hstart.next (.inr (.take 1)) (by decide +kernel)
  have hquiet : p.user.hook.Runs fun _ => False := (UserCode.plain_runs _).hook
  have hidle : p.status.idle = 0 := by decide +kernel
  have hroom : p.status.atCapacity = false := by decide +kernel
  have hpredicts := hp.status_predicts (.acquire "outer") 2 1
    (by decide +kernel) (by decide +kernel) hquiet (fun _ _ => by decide +kernel)
    (by decide +kernel)
  have hcreates := hpredicts.creates hidle hroom
  refine ⟨hidle, by decide +kernel, hroom, ?_, by decide +kernel, by decide +kernel⟩
  have hlease : (acquire (run 2) 2 (p.entered (.acquire "outer"))).1 =
      .done (.ok { id := 1, slot := 2, resource := 1 }) := by decide +kernel
  rwa [hlease] at hcreates

end Pool

end LeasePool
