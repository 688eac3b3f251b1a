import LeasePool.Proofs.Restock
import LeasePool.Proofs.Slots
import LeasePool.Proofs.Capacity

/-!
# Convergence of the count keeper

One cycle of the count keeper of an open pool brings it as close to its target as the maximum, the
factory and the slots in use allow, and a second cycle right after it has nothing left to do.
-/

namespace LeasePool

namespace Table

variable {t : Table Nat}

/-- A pool without surplus, or without idle slots, stays as it is. -/
theorem removeIdleLru_eq_self {n : Nat} (h : n = 0 ∨ t.count .idle = 0) :
    t.removeIdleLru n = ([], t) := by
  have hnone : ((t.slots.filter (·.state == .idle)).mergeSort lruBefore).take n = [] := by
    rcases h with rfl | h
    · rfl
    · rw [count, List.countP_eq_length_filter] at h
      rw [List.eq_nil_of_length_eq_zero h]
      simp
  rw [removeIdleLru, hnone]
  rfl

/-- New slots count as much as the reservations for them. -/
theorem live_append_fresh {id resource : Nat} {since till : Instant}
    {fresh : List (Slot Nat)} (h : Fresh .idle id resource since till fresh) :
    live { t with slots := t.slots ++ fresh } =
      live { t with creating := t.creating + fresh.length } := by
  have hall : fresh.countP (·.state != .invalid) = fresh.length := by
    refine List.countP_eq_length.2 fun s hs => ?_
    rw [(h.new s hs).1]
    rfl
  simp only [live, List.countP_append, hall]
  congr 1
  omega

/-- New slots keep a table in good order if they have its next numbers and fit in. -/
theorem Suits.append_fresh {max resource : Nat} {since till : Instant} {fresh : List (Slot Nat)}
    (ht : t.Suits max) (h : Fresh .idle t.nextId resource since till fresh)
    (hroom : fresh.length ≤ max - t.live) :
    Suits { t with slots := t.slots ++ fresh, nextId := t.nextId + fresh.length } max := by
  have hnew : ∀ s ∈ fresh, t.nextId ≤ s.id ∧ s.id < t.nextId + fresh.length := by
    intro s hs
    have hmem := List.mem_map_of_mem (f := (·.id)) hs
    rw [h.ids, List.mem_range'_1] at hmem
    exact hmem
  refine ⟨⟨?_, fun s hmem => ?_, fun s hmem => ?_⟩, ?_, ht.max_le⟩
  · rw [Table.ids, List.map_append, List.nodup_append]
    refine ⟨ht.nodup, ?_, fun a ha b hb => ?_⟩
    · rw [h.ids]
      exact List.nodup_range'
    · obtain ⟨s, hmem, rfl⟩ := List.mem_map.1 ha
      obtain ⟨s', hmem', rfl⟩ := List.mem_map.1 hb
      exact Nat.ne_of_lt (Nat.lt_of_lt_of_le (ht.fresh s hmem) (hnew s' hmem').1)
  · rcases List.mem_append.1 hmem with hmem | hmem
    · exact Nat.lt_add_right _ (ht.fresh s hmem)
    · exact (hnew s hmem).2
  · rcases List.mem_append.1 hmem with hmem | hmem
    · exact ht.valid s hmem
    · rw [(h.new s hmem).1]
      decide
  · have hgrant : t.slots.length + (t.creating + fresh.length) ≤ max := (ht.grant hroom).bounded
    change (t.slots ++ fresh).length + t.creating ≤ max
    rw [List.length_append]
    omega

end Table

open PoolM

namespace Pool

variable {p q : Pool} {nested : Op → PoolM Reply}

/-- The target of a pool after its hook was asked on maintenance. -/
def target (nested : Op → PoolM Reply) (p : Pool) : Nat :=
  (callHook nested .maintenance p).2.desired

/-- A keeper cycle below the target: it creates what is missing as far as the maximum and the
factory allow, and nothing else. -/
structure GrowsTo (p : Pool) (target : Nat) (failure : Option CreationError)
    (fresh : List (Slot Nat)) (result : Except KeeperFailure KeeperReport) (q : Pool) : Prop where
  yields : p.user.factory.Yields
    (min (target - p.table.live) (p.config.maxCount - p.table.live)) fresh.length failure
  isFresh : Fresh .idle p.table.nextId p.made p.clock.now q.clock.now fresh
  table : q.table = { p.table with
    slots := p.table.slots ++ fresh
    nextId := p.table.nextId + fresh.length }
  live : q.table.live = p.table.live + fresh.length
  result : result = failure.elim (.ok { created := fresh.length }) (.error ∘ .creation)
  deeds : q.deedsSince p =
    .hook .maintenance :: creationDeeds .countKeeper p.table.nextId fresh.length failure

/-- A keeper cycle at the target or above it: it destroys what is too much as far as slots are idle,
the least recently used ones first, and nothing else. -/
structure ShrinksTo (p : Pool) (target : Nat) (surplus : List (Slot Nat))
    (result : Except KeeperFailure KeeperReport) (q : Pool) : Prop where
  table : p.table.removeIdleLru (p.table.live - target) = (surplus, q.table)
  prunes : p.table.Prunes q.table surplus
  length : surplus.length = min (p.table.live - target) (p.table.count .idle)
  idle : ∀ s ∈ surplus, s.state = .idle
  oldest : ∀ s ∈ surplus, ∀ s' ∈ q.table.slots, s'.state = .idle → Table.lruBefore s s' = true
  live : q.table.live = max target (p.table.live - p.table.count .idle)
  result : result = .ok { destroyed := surplus.length }
  deeds : q.deedsSince p =
    .hook .maintenance :: surplus.map fun s => .event (.resourceDestroyed s.id .surplus)

/-- What a keeper cycle of an open pool does. -/
structure Converges (nested : Op → PoolM Reply) (p : Pool)
    (result : Except KeeperFailure KeeperReport) (q : Pool) : Prop where
  desired : q.desired = p.target nested
  config : q.config = p.config
  quiet : q.user.IsQuiet
  goes : q.keeperStops = false
  grows : p.table.live < p.target nested → ∃ failure fresh,
    p.GrowsTo (p.target nested) failure fresh result q
  shrinks : p.target nested ≤ p.table.live → ∃ surplus,
    p.ShrinksTo (p.target nested) surplus result q

end Pool

namespace PoolM

open Pool (Converges)

variable {first p : Pool} {deeds : List Entry} {b : Bench} {nested : Op → PoolM Reply}

/-- Tracing the report of a cycle is no deed. -/
theorem doing_traceKeeper (h : first.Does deeds b p) (report : KeeperReport) :
    Doing first (traceKeeper report) p fun _ q => first.Does deeds b q := by
  unfold traceKeeper
  split
  · exact doing_trace h _ _ _
  · exact .pure h

/-- What is missing is reserved, or what is too much is taken out. -/
theorem doing_resize (h : first.Does deeds b p) (ht : b.table.Suits b.config.maxCount) :
    Doing first resize p fun plan q =>
      if b.table.live < b.desired then
        plan = (min (b.desired - b.table.live) (b.config.maxCount - b.table.live), []) ∧
          first.Does deeds
            (b.withTable { b.table with creating := b.table.creating + plan.1 }) q
      else
        plan = (0, (b.table.removeIdleLru (b.table.live - b.desired)).1) ∧
          first.Does deeds
            (b.withTable (b.table.removeIdleLru (b.table.live - b.desired)).2) q := by
  obtain rfl := h.bench
  refine .read (.read ?_)
  change Doing first _ p fun plan q => if p.table.live < p.desired then _ else _
  split
  · refine (doing_reserve h ht .countKeeper _).bind ?_
    rintro _ q ⟨rfl, hq⟩
    exact .pure ⟨rfl, hq⟩
  · refine (doing_takeOut h .surplus _).bind ?_
    rintro _ q ⟨rfl, hq⟩
    exact .pure ⟨rfl, hq⟩

/-- A cycle that has created what was missing. -/
theorem converges_of_restocked {q : Pool} {desired n : Nat} {hook : Hook}
    {failure : Option CreationError} {fresh : List (Slot Nat)} {clock : Clock}
    {result : Except KeeperFailure KeeperReport} (hs : p.table.Suits p.config.maxCount)
    (hgo : p.keeperStops = false) (ht : p.target nested = desired) (hlt : p.table.live < desired)
    (hn : n = min (desired - p.table.live) (p.config.maxCount - p.table.live))
    (hy : p.user.factory.Yields n fresh.length failure)
    (hf : Fresh .idle p.table.nextId p.made p.clock.now clock.now fresh)
    (hr : result = failure.elim (.ok { created := fresh.length }) (.error ∘ .creation))
    (h : p.Does
      ([.hook .maintenance] ++ creationDeeds .countKeeper p.table.nextId fresh.length failure)
      (((p.bench.steered desired hook).withTable { p.table with
        creating := p.table.creating + n }).restocked n failure fresh clock) q) :
    p.Converges nested result q := by
  have hclock : q.clock = clock := congrArg (·.clock) h.bench
  have htable : q.table = { p.table with
      slots := p.table.slots ++ fresh
      nextId := p.table.nextId + fresh.length } := by
    refine (congrArg (·.table) h.bench).trans ?_
    have hreserved := (p.bench.steered desired hook).restocked_reserved n failure fresh clock
    exact congrArg (·.table) hreserved
  have hlive : q.table.live = p.table.live + fresh.length := by
    have hroom : fresh.length ≤ p.config.maxCount - p.table.live :=
      Nat.le_trans hy.le_wanted (hn ▸ Nat.min_le_right ..)
    rw [htable, ← hs.live_grant hroom, ← Table.live_append_fresh hf]
    rfl
  have hgrows : p.GrowsTo (p.target nested) failure fresh result q :=
    { yields := by rwa [ht, ← hn]
      isFresh := hclock ▸ hf
      table := htable
      live := hlive
      result := hr
      deeds := h.deeds }
  exact {
    desired := (congrArg (·.desired) h.bench).trans ht.symm
    config := congrArg (·.config) h.bench
    quiet := h.isQuiet
    goes := (congrArg (·.keeperStops) h.bench).trans hgo
    grows := fun _ => ⟨failure, fresh, hgrows⟩
    shrinks := fun hle => absurd hlt (Nat.not_lt_of_le (ht ▸ hle)) }

/-- A cycle that has destroyed what was too much. -/
theorem converges_of_pruned {q : Pool} {desired : Nat} {hook : Hook}
    (hs : p.table.Suits p.config.maxCount) (hgo : p.keeperStops = false)
    (ht : p.target nested = desired) (hle : desired ≤ p.table.live)
    (h : p.Does
      ([.hook .maintenance] ++ (p.table.removeIdleLru (p.table.live - desired)).1.map
        fun s => .event (.resourceDestroyed s.id .surplus))
      ((p.bench.steered desired hook).withTable
        (p.table.removeIdleLru (p.table.live - desired)).2) q) :
    p.Converges nested
      (.ok { destroyed := (p.table.removeIdleLru (p.table.live - desired)).1.length }) q := by
  have htable : q.table = (p.table.removeIdleLru (p.table.live - desired)).2 :=
    congrArg (·.table) h.bench
  have hprunes : p.table.Prunes q.table (p.table.removeIdleLru (p.table.live - desired)).1 := by
    rw [htable]
    exact p.table.prunes_removeIdleLru _
  have hlength := Table.length_removeIdleLru hs.nodup (p.table.live - desired)
  have hlive : q.table.live = max desired (p.table.live - p.table.count .idle) := by
    have hslots := hprunes.slots.length_eq
    have hlive := hs.live_eq
    have hidle : p.table.count .idle ≤ p.table.slots.length := List.countP_le_length
    rw [(hs.prune hprunes).live_eq, hprunes.creating]
    rw [List.length_append] at hslots
    omega
  have hshrinks : p.ShrinksTo (p.target nested)
      (p.table.removeIdleLru (p.table.live - desired)).1
      (.ok { destroyed := (p.table.removeIdleLru (p.table.live - desired)).1.length }) q :=
    { table := by
        rw [ht, htable]
      prunes := hprunes
      length := by rw [hlength, ht]
      idle := fun s hmem => Table.idle_of_mem_removeIdleLru hs.nodup hmem
      oldest := fun s hmem s' hmem' hidle => Table.lruBefore_iff.2
        (Table.recency_lt_of_removeIdleLru hs.nodup hmem (htable ▸ hmem') hidle).le
      live := by rw [hlive, ht]
      result := rfl
      deeds := h.deeds }
  exact {
    desired := (congrArg (·.desired) h.bench).trans ht.symm
    config := congrArg (·.config) h.bench
    quiet := h.isQuiet
    goes := (congrArg (·.keeperStops) h.bench).trans hgo
    grows := fun hlt => absurd hle (Nat.not_le_of_lt (ht ▸ hlt))
    shrinks := fun _ => ⟨_, hshrinks⟩ }

/-- A keeper cycle of an open pool converges, unless a hook or a destructor panics. -/
theorem doing_runKeeper (hs : p.table.Suits p.config.maxCount) (hu : p.user.IsQuiet)
    (hgo : p.keeperStops = false) (nested : Op → PoolM Reply) :
    Doing p (runKeeper nested) p fun result q => p.Converges nested result q := by
  refine .read ?_
  rw [hgo]
  refine (doing_callHook (.start hu) nested .maintenance).known.bind ?_
  rintro _ q ⟨⟨desired, hook, hq⟩, hcall⟩
  have htarget : p.target nested = desired := by
    rw [Pool.target, hcall]
    exact congrArg (·.desired) hq.bench
  refine (doing_resize hq hs).bind ?_
  rintro plan r hplan
  change (if p.table.live < desired then _ else _) at hplan
  split at hplan
  · next hlt =>
    obtain ⟨rfl, hr⟩ := hplan
    have hopen : p.closed = false := (Bool.or_eq_false_iff.1 hgo).2
    refine (doing_fill hr (by decide : Origin.countKeeper ≠ .acquire) ?_ hopen
      (Nat.le_add_left ..) nested).bind ?_
    · intro q hclosed hkeeper _
      rw [Pool.keeperStops, hclosed, hkeeper]
      exact hgo
    rintro _ t ⟨failure, fresh, clock, hyields, hfresh, hle, rfl, ht⟩
    cases failure with
    | none =>
      refine (doing_traceKeeper ht _).bind fun _ u hu => .pure ?_
      exact converges_of_restocked hs hgo htarget hlt rfl hyields hfresh rfl hu
    | some error =>
      exact .pure (converges_of_restocked hs hgo htarget hlt rfl hyields hfresh rfl ht)
  · next hle =>
    obtain ⟨rfl, hr⟩ := hplan
    refine (doing_destroy hr nested .surplus _).bind fun _ t ht => ?_
    refine (doing_traceKeeper ht _).bind fun _ u hu => .pure ?_
    exact converges_of_pruned hs hgo htarget (Nat.le_of_not_lt hle) hu

end PoolM

namespace Pool

variable {p q : Pool} {nested : Op → PoolM Reply}

/-- A cycle leaves a table that suits the maximum. -/
theorem Converges.suits {result : Except KeeperFailure KeeperReport}
    (h : p.Converges nested result q) (hs : p.table.Suits p.config.maxCount) :
    q.table.Suits q.config.maxCount := by
  rw [h.config]
  rcases Nat.lt_or_ge p.table.live (p.target nested) with hlt | hle
  · obtain ⟨failure, fresh, hgrows⟩ := h.grows hlt
    rw [hgrows.table]
    exact hs.append_fresh hgrows.isFresh
      (Nat.le_trans hgrows.yields.le_wanted (Nat.min_le_right ..))
  · obtain ⟨surplus, hshrinks⟩ := h.shrinks hle
    exact hs.prune hshrinks.prunes

/-- A successful cycle below the target creates all that fits in. -/
theorem GrowsTo.length_eq {target : Nat} {failure : Option CreationError} {fresh : List (Slot Nat)}
    {report : KeeperReport} (h : p.GrowsTo target failure fresh (.ok report) q) :
    fresh.length = min (target - p.table.live) (p.config.maxCount - p.table.live) := by
  rcases h.yields.ending with ⟨-, hall⟩ | ⟨-, hfails, -⟩
  · exact hall
  · have hresult := h.result
    cases failure with
    | none => exact absurd rfl hfails
    | some error => cases hresult

/-- A cycle that leaves more than the target has left no idle slot. -/
theorem ShrinksTo.count_idle {target : Nat} {surplus : List (Slot Nat)}
    {result : Except KeeperFailure KeeperReport} (h : p.ShrinksTo target surplus result q)
    (hlt : target < q.table.live) : q.table.count .idle = 0 := by
  have hcount : p.table.count .idle = surplus.countP (·.state == .idle) + q.table.count .idle := by
    rw [Table.count, h.prunes.slots.countP_eq, List.countP_append]
    rfl
  have hall : surplus.countP (·.state == .idle) = surplus.length :=
    List.countP_eq_length.2 fun s hs => by simp [h.idle s hs]
  have hlength := h.length
  have hlive := h.live
  omega

/-- After a successful cycle nothing that is missing fits in. -/
theorem Converges.no_room {report : KeeperReport} (h : p.Converges nested (.ok report) q) :
    min (p.target nested - q.table.live) (q.config.maxCount - q.table.live) = 0 := by
  rw [h.config]
  rcases Nat.lt_or_ge p.table.live (p.target nested) with hlt | hle
  · obtain ⟨failure, fresh, hgrows⟩ := h.grows hlt
    have hlength := hgrows.length_eq
    have hlive := hgrows.live
    omega
  · obtain ⟨surplus, hshrinks⟩ := h.shrinks hle
    have hlive := hshrinks.live
    omega

/-- After a successful cycle nothing that is too much is idle. -/
theorem Converges.no_surplus {report : KeeperReport} (h : p.Converges nested (.ok report) q) :
    q.table.live - p.target nested = 0 ∨ q.table.count .idle = 0 := by
  rcases Nat.lt_or_ge p.table.live (p.target nested) with hlt | hle
  · obtain ⟨failure, fresh, hgrows⟩ := h.grows hlt
    have hlength := hgrows.length_eq
    have hlive := hgrows.live
    omega
  · obtain ⟨surplus, hshrinks⟩ := h.shrinks hle
    rcases Nat.lt_or_ge (p.target nested) q.table.live with hlt | hge
    · exact .inr (hshrinks.count_idle hlt)
    · exact .inl (Nat.sub_eq_zero_of_le hge)

/-- A cycle that starts right after a successful one, with the same target, has nothing to do. -/
theorem Converges.again {result : Except KeeperFailure KeeperReport} {report : KeeperReport}
    {nested' : Op → PoolM Reply} {r : Pool} (h : p.Converges nested (.ok report) q)
    (ht : q.target nested' = p.target nested) (h' : q.Converges nested' result r) :
    result = .ok {} ∧ r.table = q.table ∧ r.deedsSince q = [.hook .maintenance] := by
  rcases Nat.lt_or_ge q.table.live (q.target nested') with hlt | hle
  · obtain ⟨failure, fresh, hgrows⟩ := h'.grows hlt
    have hyields := hgrows.yields.ending
    rw [ht, h.no_room] at hyields
    obtain ⟨rfl, hnil⟩ : failure = none ∧ fresh.length = 0 :=
      hyields.resolve_right fun ⟨hneg, _⟩ => Nat.not_lt_zero _ hneg
    obtain rfl := List.eq_nil_of_length_eq_zero hnil
    refine ⟨hgrows.result, ?_, hgrows.deeds⟩
    rw [hgrows.table]
    simp only [List.append_nil, List.length_nil, Nat.add_zero]
  · obtain ⟨surplus, hshrinks⟩ := h'.shrinks hle
    have htable := hshrinks.table
    rw [ht, Table.removeIdleLru_eq_self h.no_surplus] at htable
    obtain ⟨rfl, hsame⟩ := Prod.mk.inj htable
    exact ⟨hshrinks.result, hsame.symm, hshrinks.deeds⟩

/-- A keeper cycle of an open pool converges. -/
theorem converges_keeperCycle (hs : p.table.Suits p.config.maxCount) (hu : p.user.IsQuiet)
    (hgo : p.keeperStops = false) (hpanic : ¬p.Panics (keeperCycle nested p).2) :
    ∃ result q, keeperCycle nested p = (.done result, q) ∧ p.Converges nested result q :=
  (doing_runKeeper hs hu hgo nested).exists_caught (fun _ => rfl) (fun _ => ⟨_, rfl⟩) hpanic

/-- One keeper cycle of an open pool whose job is not stopped, where user code runs no operation.
Below the target it makes up to as many factory calls as are missing and fit in, and stops at the
first one that fails; at the target or above it it calls no factory and removes the least recently
used idle slots that are too much. A second cycle right after a successful one changes nothing. -/
theorem Arises.keeper_converges (hp : p.Arises) (hu : p.user.IsQuiet)
    (hgo : p.keeperStops = false) (nested : Op → PoolM Reply)
    (hpanic : ¬p.Panics (keeperCycle nested p).2) :
    ∃ result q, keeperCycle nested p = (.done result, q) ∧ p.Converges nested result q ∧
      ∀ (report : KeeperReport) (nested' : Op → PoolM Reply), result = .ok report →
        q.target nested' = p.target nested → ¬q.Panics (keeperCycle nested' q).2 →
        ∃ r, keeperCycle nested' q = (.done (.ok {}), r) ∧ r.table = q.table ∧
          r.deedsSince q = [.hook .maintenance] := by
  have hsuits := hp.fits.suits
  obtain ⟨result, q, hcycle, hq⟩ := converges_keeperCycle hsuits hu hgo hpanic
  refine ⟨result, q, hcycle, hq, ?_⟩
  rintro report nested' rfl ht hpanic'
  obtain ⟨result', r, hcycle', hr⟩ :=
    converges_keeperCycle (hq.suits hsuits) hq.quiet hq.goes hpanic'
  obtain ⟨rfl, htable, hdeeds⟩ := hq.again ht hr
  exact ⟨r, hcycle', htable, hdeeds⟩

/-- The first cycle of a new pool makes the two resources that it should have, and the next one
leaves them alone. -/
theorem keeper_converges_new :
    let p := new "pool" { desiredCount := 2 } UserCode.plain
    let q := (keeperCycle (run 1) p).2
    let r := (keeperCycle (run 1) q).2
    p.Converges (run 1) (.ok { created := 2 }) q ∧ r.table = q.table ∧
      r.deedsSince q = [.hook .maintenance] := by
  intro p q r
  have hp : p.Arises := (reachable_new "pool" _ (UserCode.plain_runs _) (by decide)).arises
  have hresult : (keeperCycle (run 1) p).1 = .done (.ok { created := 2 }) := by decide +kernel
  have htarget : q.target (run 1) = p.target (run 1) := by decide +kernel
  obtain ⟨result, q', hcycle, hconverges, hagain⟩ :=
    hp.keeper_converges (UserCode.plain_runs _) rfl (run 1) (by decide +kernel)
  obtain rfl : q = q' := congrArg Prod.snd hcycle
  obtain rfl := Outcome.done.inj ((congrArg Prod.fst hcycle).symm.trans hresult)
  obtain ⟨r', hcycle', htable, hdeeds⟩ := hagain _ (run 1) rfl htarget (by decide +kernel)
  obtain rfl : r = r' := congrArg Prod.snd hcycle'
  exact ⟨hconverges, htable, hdeeds⟩

end Pool

end LeasePool
