import LeasePool.Pool.Report
import LeasePool.Proofs.Capacity

/-!
# Shutdown is final

Once a pool is closed it stays closed, and its table gains no slot. A creation that finishes later
is discarded, an acquisition that starts later is refused at once, and a cycle of a job that starts
later does nothing.
-/

namespace LeasePool

/-- What can be seen later shows a closed pool, with no slot that it did not have before. -/
def Sight.NoNewSlot (before after : Sight) : Prop :=
  after.closed = true ∧ ∀ s ∈ after.table.slots, ∃ s' ∈ before.table.slots,
    s'.id = s.id ∧ s'.resource = s.resource

/-- What can be seen of a closed pool is final. -/
def Sight.Leads (before after : Sight) : Prop := before.closed = true → before.NoNewSlot after

theorem Sight.Leads.refl (s : Sight) : s.Leads s := fun hc => ⟨hc, fun s hs => ⟨s, hs, rfl, rfl⟩⟩

/-- What leads on twice leads on. -/
theorem Sight.Leads.trans {s t u : Sight} (h : s.Leads t) (h' : t.Leads u) : s.Leads u := by
  intro hc
  obtain ⟨ht, hslots⟩ := h hc
  obtain ⟨hu, hslots'⟩ := h' ht
  refine ⟨hu, fun x hx => ?_⟩
  obtain ⟨y, hy, hid, hr⟩ := hslots' x hx
  obtain ⟨z, hz, hid', hr'⟩ := hslots y hy
  exact ⟨z, hz, hid'.trans hid, hr'.trans hr⟩

/-- A table without slots stays so if none is new. -/
theorem Sight.NoNewSlot.slots_eq_nil {s t : Sight} (h : s.NoNewSlot t) (hs : s.table.slots = []) :
    t.table.slots = [] := by
  refine List.eq_nil_iff_forall_not_mem.2 fun x hx => ?_
  obtain ⟨y, hy, -⟩ := h.2 x hx
  rw [hs] at hy
  exact List.not_mem_nil hy

namespace Pool

variable {p q : Pool}

/-- What an operation leaves that only answers: two more entries in the history. -/
def answered (op : Op) (reply : Reply) (p : Pool) : Pool :=
  (p.note (.began op)).note (.ended op reply)

/-- A creation has come to nothing: its reservation is returned, no operation holds the new
resource, no counter has changed, and no event reports it. -/
structure Discards (resource : Nat) (p q : Pool) : Prop where
  table : q.table = p.table.unreserve
  holdings : q.holdings = (p.holdings.erase .reservation).erase (.product resource)
  tally : q.tally = p.tally
  history : ∃ r t, q.history = r :: p.history ∧ r.entry = .trace t

/-- No slot is new if those of the table stay, or change without getting another number or
resource. -/
theorem leads_of_slots (hc : p.closed = true → q.closed = true)
    (hs : ∀ s ∈ q.table.slots, ∃ s' ∈ p.table.slots, s'.id = s.id ∧ s'.resource = s.resource) :
    p.sight.Leads q.sight :=
  fun hp => ⟨hc hp, hs⟩

theorem leads_of_eq (hc : q.closed = p.closed) (ht : q.table.slots = p.table.slots) :
    p.sight.Leads q.sight :=
  leads_of_slots (fun h => hc.trans h) fun s hs => ⟨s, ht ▸ hs, rfl, rfl⟩

/-- No step adds a slot to a closed pool or opens it. -/
theorem Step.leads (h : p.Step q) : p.sight.Leads q.sight := by
  cases h with
  | close => exact leads_of_slots (fun _ => rfl) fun s hs => ⟨s, hs, rfl, rfl⟩
  | commit resource state origin _ hc =>
    intro hclosed
    exact absurd (hc.symm.trans hclosed) nofun
  | claim s t h =>
    obtain ⟨s', -, -, -, rfl⟩ := Table.claimIdle_eq_some h
    exact leads_of_slots id (Table.keeps_modify (fun _ => rfl) fun _ => rfl)
  | park id s t h =>
    obtain ⟨s', -, -, -, -, rfl⟩ := Table.claimForCheck_eq_some h
    exact leads_of_slots (fun hc => hc) (Table.keeps_modify (fun _ => rfl) fun _ => rfl)
  | confirm | giveBack =>
    exact leads_of_slots (fun hc => hc) (Table.keeps_modify (fun _ => rfl) fun _ => rfl)
  | reinstate =>
    exact leads_of_slots (fun hc => hc)
      (Table.keeps_modify (PoolM.id_passed _) (PoolM.resource_passed _))
  | unpark =>
    exact leads_of_slots (fun hc => hc)
      (Table.keeps_modify PoolM.id_unparked PoolM.resource_unparked)
  | giveUp | takeOutBroken => exact leads_of_slots (fun hc => hc) (Table.keeps_invalidate _ _)
  | takeOutLru n =>
    exact leads_of_slots id fun s hs => ⟨s, (Table.prunes_removeIdleLru n _).mem hs, rfl, rfl⟩
  | takeOutExpired f =>
    exact leads_of_slots id fun s hs => ⟨s, (Table.prunes_removeIdleWhere f _).mem hs, rfl, rfl⟩
  | drain => exact leads_of_slots id fun s hs => absurd hs List.not_mem_nil
  | destroyOne =>
    rw [bury_eq]
    exact leads_of_eq rfl rfl
  | letGo =>
    rw [discard_eq]
    exact leads_of_eq rfl rfl
  | lose =>
    rw [settle_eq]
    exact leads_of_eq rfl rfl
  | _ => exact leads_of_eq rfl rfl

/-- What can be seen of a closed pool is final for all that comes later in a run. -/
theorem Occurs.leads (h : q.Occurs) : (∀ r ∈ q.history, r.seen.Leads q.sight) ∧
    q.history.Pairwise fun later earlier => earlier.seen.Leads later.seen :=
  h.arises.ordered Sight.Leads.refl Sight.Leads.trans Step.leads

/-- No slot is created in a closed pool. -/
theorem Occurs.created (h : q.Occurs) : ∀ r ∈ q.history, ∀ id origin,
    r.entry = .event (.resourceCreated id origin) → r.seen.closed = false := by
  intro r hr id origin he
  obtain ⟨p, hj⟩ := h.exists_justifies r hr
  rw [Justifies, he] at hj
  exact hj.1

/-- Operations that have ended have done what they do for sure. -/
theorem Occurs.completed (h : q.Occurs) : ∀ r ∈ q.history, ∀ op reply,
    r.entry = .ended op reply → r.seen.Completes op := by
  intro r hr op reply he
  obtain ⟨p, hj⟩ := h.exists_justifies r hr
  rwa [Justifies, he] at hj

end Pool

namespace PoolM

variable {p q : Pool} {nested : Op → PoolM Reply}

/-- A creation that finishes in a closed pool is discarded. What remains is what the destructor of
the new resource does. -/
theorem createResource_of_closed (state : SlotState) {origin : Origin} {resource : Nat}
    (h : produce nested origin p = (.done (.ok resource), q)) (hc : q.closed = true) :
    ∃ left parting, q.Discards resource left ∧
      (parting = ([], false) ∨
        parting = (q.user.destructor resource, q.brittle.contains resource)) ∧
      createResource nested state origin p =
        (part nested resource parting >>= fun _ => pure (.ok none)) left := by
  let q' := ((q.onTable (·.unreserve)).unhold .reservation).note (.trace ⟨.debug,
    "pool closed during creation, dropping resource",
    [("pool", .text q.name), ("origin", .text origin.name)]⟩)
  have hrun : createResource nested state origin p =
      (letGo nested (.product resource) >>= fun _ => pure (.ok none)) q' := by
    unfold createResource
    rw [bind_of_done h]
    dsimp only
    rw [bind_apply, read_apply]
    dsimp only
    rw [if_pos hc]
    rfl
  refine ⟨(q'.unhold (.product resource)).discard resource,
    (q'.unhold (.product resource)).parting resource, ?_, ?_, ?_⟩
  · rw [Pool.discard_eq]
    exact ⟨rfl, rfl, rfl, _, _, rfl, rfl⟩
  · unfold Pool.parting
    split
    · exact .inl rfl
    · exact .inr rfl
  · rw [hrun, bind_apply, letGo_apply rfl]
    rfl

/-- An operation whose work changes nothing only leaves its entries in the history. -/
theorem answering_of_done {op : Op} {body : PoolM Reply} {reply : Reply}
    (h : ∀ q : Pool, q.sight = p.sight → body q = (.done reply, q)) :
    answering nested op body p = (.done reply, p.answered op reply) :=
  answering_of_returned (h { p.note (.began op) with depth := p.depth + 1 } rfl)

/-- An acquisition from a closed pool is refused, and changes nothing. -/
theorem acquire_of_closed (hc : p.closed = true) (rounds : Nat) :
    acquire nested rounds p = (.done (.error .closed), p) := by
  unfold acquire
  rw [bind_apply, read_apply]
  dsimp only
  rw [if_pos hc]
  rfl

/-- A closed pool refuses at once. -/
theorem perform_acquire_of_closed (hc : p.closed = true) (rounds : Nat) (handle : String) :
    perform nested rounds (.acquire handle) p = (.done (.refused .closed), p) := by
  rw [perform, bind_of_done (acquire_of_closed hc rounds)]
  rfl

theorem perform_acquireOnThread_of_closed (hc : p.closed = true) (rounds : Nat)
    (handle : String) :
    perform nested rounds (.acquireOnThread handle) p = (.done (.refused .closed), p) := by
  have helsewhere : elsewhere (attempt nested (acquire nested rounds)) p =
      (.done (.ok (.error .closed)), p) := by
    rw [elsewhere_apply, attempt, acquire_of_closed (by exact hc)]
  rw [perform, bind_of_done helsewhere]
  rfl

/-- A cycle of the count keeper that must not go on does nothing. -/
theorem keeperCycle_of_stops (h : p.keeperStops = true) :
    keeperCycle nested p = (.done (.ok {}), p) := by
  have hcycle : runKeeper nested p = (.done (.ok {}), p) := by
    unfold runKeeper
    rw [bind_apply, read_apply]
    dsimp only
    rw [if_pos h]
    rfl
  have hcaught : attempt nested (runKeeper nested) p = (.done (.ok (.ok {})), p) := by
    unfold attempt
    rw [hcycle]
  rw [keeperCycle, bind_of_done hcaught]
  rfl

/-- A cycle of the health-care job that must not go on does nothing. -/
theorem careCycle_of_stops (h : p.careStops = true) :
    careCycle nested p = (.done (.ok {}), p) := by
  have hcycle : runCare nested p = (.done (.ok {}), p) := by
    unfold runCare
    rw [bind_apply, read_apply]
    dsimp only
    rw [if_pos h]
    rfl
  have hcaught : attempt nested (runCare nested) p = (.done (.ok (.ok {})), p) := by
    unfold attempt
    rw [hcycle]
  rw [careCycle, bind_of_done hcaught]
  rfl

theorem perform_keeper_of_stops (h : p.keeperStops = true) (rounds : Nat) :
    perform nested rounds .keeper p = (.done (.keeper (.ok {})), p) := by
  rw [perform, map_eq_pure_bind, bind_of_done (keeperCycle_of_stops h)]
  rfl

theorem perform_care_of_stops (h : p.careStops = true) (rounds : Nat) :
    perform nested rounds .care p = (.done (.care (.ok {})), p) := by
  rw [perform, map_eq_pure_bind, bind_of_done (careCycle_of_stops h)]
  rfl

/-- Acquisitions from a closed pool are refused, and cycles of its jobs do nothing. -/
theorem run_of_closed (hc : p.closed = true) (budget : Nat) :
    (∀ handle, run (budget + 1) (.acquire handle) p =
      (.done (.refused .closed), p.answered (.acquire handle) (.refused .closed))) ∧
    (∀ handle, run (budget + 1) (.acquireOnThread handle) p =
      (.done (.refused .closed), p.answered (.acquireOnThread handle) (.refused .closed))) ∧
    run (budget + 1) .keeper p =
      (.done (.keeper (.ok {})), p.answered .keeper (.keeper (.ok {}))) ∧
    run (budget + 1) .care p = (.done (.care (.ok {})), p.answered .care (.care (.ok {}))) := by
  have hclosed : ∀ q : Pool, q.sight = p.sight → q.closed = true :=
    fun q hq => (congrArg Sight.closed hq).trans hc
  have hkeeper : ∀ q : Pool, q.sight = p.sight → q.keeperStops = true := by
    intro q hq
    rw [Pool.keeperStops, hclosed q hq, Bool.or_true]
  have hcare : ∀ q : Pool, q.sight = p.sight → q.careStops = true := by
    intro q hq
    rw [Pool.careStops, hclosed q hq, Bool.or_true]
  refine ⟨fun handle => ?_, fun handle => ?_, ?_, ?_⟩
  · exact answering_of_done fun q hq => perform_acquire_of_closed (hclosed q hq) budget handle
  · exact answering_of_done fun q hq =>
      perform_acquireOnThread_of_closed (hclosed q hq) budget handle
  · exact answering_of_done fun q hq => perform_keeper_of_stops (hkeeper q hq) budget
  · exact answering_of_done fun q hq => perform_care_of_stops (hcare q hq) budget

/-- An operation goes on from where its work has ended. -/
theorem steps_answering {op : Op} {body : PoolM Reply} (hop : ∀ s : Sight, s.Completes op) :
    (attempt nested body { p.note (.began op) with depth := p.depth + 1 }).2.Steps
      (answering nested op body p).2 := by
  have henter : enter op p = (.done (), { p.note (.began op) with depth := p.depth + 1 }) := rfl
  unfold answering
  rw [bind_of_done henter, bind_apply]
  generalize attempt nested body { p.note (.began op) with depth := p.depth + 1 } = ending
  obtain ⟨result | panic | _, q⟩ := ending
  · exact .tail (.single (.depth (q.depth - 1))) (.ended op _ (hop _))
  · exact .refl
  · exact .refl

/-- A drain takes all slots out before anything else happens. -/
theorem Nests.steps_drain (hn : Nests Pool.publicRun nested) (hp : p.IsTame) (rounds : Nat) :
    (takeOut .shutdown (·.drain) p).2.Steps
      (attempt nested (PoolM.perform nested rounds .drain) p).2 := by
  have htaken : takeOut .shutdown (·.drain) p =
      (.done p.table.slots, (takeOut .shutdown (·.drain) p).2) := rfl
  have hdrain : PoolM.perform nested rounds .drain p =
      (PoolM.destroy nested .shutdown p.table.slots >>= fun _ => pure Reply.nothing)
        (takeOut .shutdown (·.drain) p).2 := by
    rw [PoolM.perform, PoolM.drain, bind_assoc, bind_of_done htaken]
  have hheld : (takeOut .shutdown (·.drain) p).2.holdings =
      p.table.slots.map (.removed .shutdown) ++ p.holdings := rfl
  have htame : (takeOut .shutdown (·.drain) p).2.IsTame :=
    hp.of_eq rfl (fun _ => id) fun _ => id
  have hrest : Spec Pool.publicRun
      (PoolM.destroy nested .shutdown p.table.slots >>= fun _ => pure Reply.nothing)
      (takeOut .shutdown (·.drain) p).2 (fun _ q => q.holdings = p.holdings)
      fun _ q => q.Strewn p.holdings :=
    (hn.destroy hheld nofun).bind fun _ _ hq => .pure hq
  exact hn.moves_attempt hdrain htame hrest

end PoolM

namespace Pool

open PoolM (run produce createResource part)

variable {p q : Pool}

/-- Once a closed pool has been drained its table stays empty. From the start of the drain on
nothing else can be seen. -/
theorem Arises.drained (hp : p.Arises) (hc : p.closed = true) (budget : Nat)
    (h : (run (budget + 1) .drain p).2.Steps q) : q.table.slots = [] ∧
      ∀ r ∈ q.recordsSince (p.note (.began .drain)), r.seen.table.slots = [] := by
  let entered := { p.note (.began .drain) with depth := p.depth + 1 }
  let drained := (PoolM.takeOut .shutdown (·.drain) entered).2
  have hentered : p.Steps entered :=
    .tail (.single (.remark (.began .drain) trivial)) (.depth (p.depth + 1))
  have hcompletes (s : Sight) : s.Completes .drain := trivial
  have hsteps : drained.Steps q :=
    ((PoolM.nests_run budget).steps_drain (hp.steps hentered).isTame budget).trans
      ((PoolM.steps_answering hcompletes).trans h)
  have hempty (o o' : Pool) (ho : o.closed = true ∧ o.table.slots = []) (hs : o.Step o') :
      o'.closed = true ∧ o'.table.slots = [] := by
    have hfinal := hs.leads ho.1
    exact ⟨hfinal.1, hfinal.slots_eq_nil ho.2⟩
  have hstart : drained.closed = true ∧ drained.table.slots = [] := ⟨hc, rfl⟩
  obtain ⟨hq, new, hnew, hall⟩ := forall_seen_of_changes
    (S := fun s => s.table.slots = []) Step.history hempty (fun _ ho => ho.2) hstart hsteps
  have hsince : q.recordsSince (p.note (.began .drain)) = new.reverse := recordsSince_eq hnew
  refine ⟨hq.2, fun r hr => hall r ?_⟩
  rwa [hsince, List.mem_reverse] at hr

/-- Shutdown is final. From the moment at which a pool has been closed, at every depth of calls, it
stays closed, its table gains no slot, and no event reports a new resource; reservations last only
while creations are running, and those that finish in a closed pool are discarded. A drain empties
the table for good before any destructor runs. Acquisitions are refused and cycles of the jobs
report nothing done; they call no user code and leave nothing but their entries in the history. -/
theorem Occurs.shutdown_final (h : q.Occurs) :
    (∀ r ∈ q.history, r.seen.closed = true → r.seen.NoNewSlot q.sight) ∧
    (q.history.Pairwise fun later earlier => earlier.seen.closed = true →
      earlier.seen.NoNewSlot later.seen ∧
        ∀ id origin, later.entry ≠ .event (.resourceCreated id origin)) ∧
    (∀ r ∈ q.history, ∀ reply, r.entry = .ended .close reply → r.seen.closed = true) ∧
    (∀ p : Pool, p.Arises → p.closed = true → ∀ budget r, (run (budget + 1) .drain p).2.Steps r →
      r.table.slots = [] ∧
        ∀ e ∈ r.recordsSince (p.note (.began .drain)), e.seen.table.slots = []) ∧
    q.table.creating = q.holdings.count .reservation ∧
    (∀ p : Pool, p.closed = true → ∀ budget,
      (∀ handle, run (budget + 1) (.acquire handle) p =
        (.done (.refused .closed), p.answered (.acquire handle) (.refused .closed))) ∧
      (∀ handle, run (budget + 1) (.acquireOnThread handle) p =
        (.done (.refused .closed), p.answered (.acquireOnThread handle) (.refused .closed))) ∧
      run (budget + 1) .keeper p =
        (.done (.keeper (.ok {})), p.answered .keeper (.keeper (.ok {}))) ∧
      run (budget + 1) .care p = (.done (.care (.ok {})), p.answered .care (.care (.ok {})))) ∧
    (∀ nested state origin resource p r, produce nested origin p = (.done (.ok resource), r) →
      r.closed = true → ∃ left parting, r.Discards resource left ∧
        (parting = ([], false) ∨
          parting = (r.user.destructor resource, r.brittle.contains resource)) ∧
        createResource nested state origin p =
          (part nested resource parting >>= fun _ => pure (.ok none)) left) := by
  obtain ⟨hnow, hpair⟩ := h.leads
  refine ⟨hnow, ?_, fun r hr reply he => h.completed r hr .close reply he,
    fun p hp hc budget r hr => hp.drained hc budget hr, h.fits.creating,
    fun p hc budget => PoolM.run_of_closed hc budget,
    fun _ _ _ _ _ _ hrun hc => PoolM.createResource_of_closed _ hrun hc⟩
  refine hpair.imp_of_mem fun hlater _ hleads hc => ⟨hleads hc, fun id origin he => ?_⟩
  exact absurd ((h.created _ hlater id origin he).symm.trans (hleads hc).1) nofun

/-- The factory closes the pool while it makes the resource of an acquisition. -/
theorem shutdown_final_in_factory :
    let user := { UserCode.plain with factory := ⟨[], ⟨[.close], .success⟩⟩ }
    let q := (run 3 (.acquire "a") (new "pool" {} user)).2
    q.closed = true ∧ q.table.creating = 0 ∧
      run 1 .keeper q = (.done (.keeper (.ok {})), q.answered .keeper (.keeper (.ok {}))) := by
  intro user q
  have huser : user.IsPublic :=
    { UserCode.plain_runs _ with
      factory := fun op hop => by
        rw [List.mem_singleton.1 hop]
        exact .of_installs_eq_nil rfl rfl }
  have hop : Op.IsPublic (.acquire "a") := .of_installs_eq_nil rfl rfl
  have hstart : Reachable (new "pool" {} user) := reachable_new "pool" {} huser (by decide)
  obtain ⟨-, -, -, -, hcreating, hops, -⟩ := (Occurs.intro hstart hop 3).shutdown_final
  have hclosed : q.closed = true := by decide
  exact ⟨hclosed, hcreating.trans (by decide), (hops q hclosed 0).2.2.1⟩

end Pool

end LeasePool
