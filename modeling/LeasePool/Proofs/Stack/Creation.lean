import LeasePool.Proofs.Stack.Callback

/-!
# The stack under creation and destruction

A creation uses up one reservation on the stack. Slots that have left the table leave the stack when
they are destroyed. What remains below is as it was.
-/

namespace LeasePool.PoolM

open Pool (Hosts)

variable {d : Discipline} [Hosts d] {nested : Op → PoolM Reply} {p : Pool} {H : List Holding}

omit [Hosts d] in
/-- What the destructor of a resource does after the resource was let go of. It panics only if
nothing holds the resource, and if it was made to. -/
theorem Nests.part (hn : Nests d nested) (hu : p.user.IsPublic) (resource : Nat) :
    Spec d (part nested resource (p.parting resource)) (p.discard resource)
      (fun _ q => q.holdings = p.holdings ∧ d.moves (p.discard resource) q)
      fun _ q => (q.holdings = p.holdings ∧ d.moves (p.discard resource) q) ∧
        p.isHeld resource = false ∧ resource ∈ p.brittle := by
  have hh : (p.discard resource).holdings = p.holdings := by rw [Pool.discard_eq]
  have hruns := (hn _ _ (.destructor p resource) (hu.parting resource)).tracked
  refine (hruns.mono (fun _ _ h => h) fun _ _ => False.elim).bind ?_
  rintro _ q ⟨hq, hmoves⟩
  have hq := hq.trans hh
  split
  · next hbreaks =>
    unfold Pool.parting at hbreaks
    cases hheld : p.isHeld resource with
    | true =>
      rw [if_pos hheld] at hbreaks
      cases hbreaks
    | false =>
      rw [if_neg (by simp [hheld])] at hbreaks
      exact .raise ⟨⟨hq, hmoves⟩, rfl, List.contains_iff_mem.1 hbreaks⟩
  · exact .pure ⟨hq, hmoves⟩

/-- Letting go of the latest holding, which is a resource alone. -/
theorem Nests.letGo (hn : Nests d nested) {h : Holding} {resource : Nat}
    (hk : h = .reference resource ∨ h = .product resource) (hp : p.holdings = h :: H) :
    Spec d (letGo nested h) p (fun _ q => q.holdings = H) fun _ q => q.holdings = H := by
  have hr : h.resource? = some resource := by
    rcases hk with rfl | rfl <;> rfl
  have hh : (p.unhold h).holdings = H := by
    simp only [Pool.unhold, hp, List.erase_cons_head]
  have hstep : p.PlainStep ((p.unhold h).discard resource) := by
    refine ⟨.aside (.letGo h resource hk (by simp [hp])) ?_, ?_⟩
    · rw [Pool.discard_eq]
      rfl
    · rw [Pool.discard_eq]
      rfl
  refine .given fun hv => .jump (letGo_apply hr nested p) (Hosts.step · hstep) ?_
  have hpart := hn.part (p := p.unhold h) (Hosts.tame hv).user resource
  exact hpart.mono (fun _ _ hq => hq.1.trans hh) fun _ _ hq => hq.1.1.trans hh

/-- The destruction of a slot is recorded before its destructor does anything. -/
theorem destroyOne_apply (nested : Op → PoolM Reply) (reason : DestroyReason) (s : Slot Nat)
    (p : Pool) :
    destroyOne nested reason s p = PoolM.part nested s.resource
      ((p.strikeOff reason s).parting s.resource) (p.bury reason s) := by
  simp only [destroyOne, bump, emit, bind_apply, change_apply]
  exact letGo_apply rfl nested _

/-- A panic of a destructor marks the pool: the resource was destroyed, and its destructor was made
to panic. -/
theorem Nests.destroyOne (hn : Nests d nested) {reason : DestroyReason} {s : Slot Nat}
    (hp : p.holdings = .removed reason s :: H) (hf : reason = .unhealthy → p.HasFailed s.id) :
    Spec d (destroyOne nested reason s) p
      (fun _ q => q.holdings = H ∧ ∀ r ∈ p.history, r ∈ q.history)
      fun _ q => q.holdings = H ∧ q.HasCracked := by
  have hstep : p.Step (p.bury reason s) := .destroyOne reason s (by simp [hp]) hf
  have hplain : p.PlainStep (p.bury reason s) := by
    refine ⟨.aside hstep ?_, ?_⟩
    · rw [Pool.bury_eq]
      rfl
    · rw [Pool.bury_eq]
      rfl
  have hh : (p.strikeOff reason s).holdings = H := by
    simp only [Pool.strikeOff, Pool.unhold, Pool.note, hp, List.erase_cons_head]
  refine .given fun hv => .jump (destroyOne_apply nested reason s p) (Hosts.step · hplain) ?_
  have htame := Hosts.tame hv
  have hpart := hn.part (p := p.strikeOff reason s) htame.user s.resource
  refine hpart.mono ?_ ?_
  · rintro _ q ⟨hq, hmoves⟩
    refine ⟨hq.trans hh, fun e he => ?_⟩
    exact (Hosts.grows hmoves).subset (hstep.history_suffix.subset he)
  · rintro _ q ⟨⟨hq, hmoves⟩, hfree, hbreaks⟩
    have hgone : s.resource ∈ (p.bury reason s).destroyed := by
      simp [Pool.bury, Pool.discard, Pool.settle, hfree]
    have hmade : (p.bury reason s).Breaks s.resource :=
      (htame.brittle _ hbreaks).mono fun e he => hstep.history_suffix.subset he
    refine ⟨hq.trans hh, s.resource, Hosts.perishes hmoves hgone, hmade.mono fun e he => ?_⟩
    exact (Hosts.grows hmoves).subset he

/-- Slots that have left the table are destroyed one by one. A panic of a destructor takes those
left over. -/
theorem Nests.destroy (hn : Nests d nested) {reason : DestroyReason} {slots : List (Slot Nat)}
    (hp : p.holdings = slots.map (.removed reason) ++ H)
    (hf : reason = .unhealthy → ∀ s ∈ slots, p.HasFailed s.id) :
    Spec d (destroy nested reason slots) p (fun _ q => q.holdings = H) fun _ q => q.Strewn H := by
  induction slots generalizing p with
  | nil => exact .pure hp
  | cons s rest ih =>
    have hone := hn.destroyOne hp fun he => hf he s List.mem_cons_self
    refine Spec.bind (hone.mono (fun _ _ h => h) ?_) ?_
    · rintro _ q ⟨hq, hcracked⟩
      refine (Pool.Strewn.of_eq hq).of_append fun h hh => ?_
      obtain ⟨s, -, rfl⟩ := List.mem_map.1 hh
      exact hcracked
    · rintro _ q ⟨hq, hhistory⟩
      exact ih hq fun he t ht => (hf he t (List.mem_cons_of_mem _ ht)).mono hhistory

/-- Giving back reservations takes them from the stack. -/
theorem spec_unreserve {n : Nat} (hp : p.holdings = List.replicate n .reservation ++ H) :
    Spec d (unreserve n) p (fun _ q => q.holdings = H) fun _ q => q.Strewn H := by
  induction n generalizing p with
  | zero => exact .pure hp
  | succ n ih =>
    rw [List.replicate_succ, List.cons_append] at hp
    refine .step (.unreserve (by simp [hp])) (ih ?_)
    simp only [Pool.unhold, Pool.onTable, hp, List.erase_cons_head]

/-- What is granted lies on the stack. -/
theorem spec_reserve {origin : Origin} {wanted : Nat}
    (hw : origin ≠ .acquire → wanted = p.desired - p.table.live) (hp : p.holdings = H) :
    Spec d (reserve origin wanted) p
      (fun granted q => granted ≤ wanted ∧ q.holdings = List.replicate granted .reservation ++ H)
      fun _ q => q.Strewn H :=
  .ofJob_done (.aside (.reserve origin wanted hw) rfl) rfl ⟨Nat.min_le_left .., congrArg _ hp⟩

/-- Reservations that are left over may be taken by a panic. -/
theorem strewn_of_reservations {n : Nat} (hp : p.Strewn (List.replicate n .reservation ++ H)) :
    p.Strewn H :=
  hp.of_append fun h hh => by
    rw [List.eq_of_mem_replicate hh]
    trivial

/-- The factory as a part of the pool calls it. -/
theorem Nests.produce (hn : Nests d nested) {origin : Origin}
    (hf : d.valid p → d.moves p (p.note (.factory origin))) :
    Spec d (produce nested origin) p (fun result q => q.holdings =
        match result with
        | .ok resource => .product resource :: p.holdings
        | .error _ => p.holdings)
      fun _ q => q.Strewn p.holdings := by
  cases origin with
  | acquire => exact hn.callFactory hf
  | countKeeper | healthCareJob =>
    refine ((Spec.catch hn (hn.callFactory hf)).mono (fun _ _ h => h) fun _ _ => False.elim).bind
      fun ending q hq => ?_
    cases ending with
    | ok result => exact .pure hq
    | error panic => exact .pure hq

/-- A new resource enters the table in place of a reservation. -/
theorem spec_commit {resource : Nat} {state : SlotState} (origin : Origin)
    (hs : state = .idle ∨ state = .inUse) (hc : p.closed = false)
    (hp : p.holdings = .product resource :: .reservation :: H) :
    Spec d (commit resource state origin) p
      (fun id q => q.holdings =
        (if state = .inUse then [.slot .claim id resource] else []) ++ H)
      fun _ q => q.Strewn H := by
  have hstep : p.Step (commit resource state origin p).2 :=
    .commit resource state origin hs hc (by simp [hp]) (by simp [hp])
  refine .ofJob_done (.commit resource state origin hstep) rfl ?_
  change _ ++ (p.holdings.erase _).erase _ = _
  rw [hp, List.erase_cons_head, List.erase_cons_head]

/-- A creation uses up a reservation. A slot in use is claimed when it ends. -/
theorem Nests.createResource (hn : Nests d nested) {state : SlotState} {origin : Origin}
    (hf : d.valid p → d.moves p (p.note (.factory origin)))
    (hs : state = .idle ∨ state = .inUse) (hp : p.holdings = .reservation :: H) :
    Spec d (createResource nested state origin) p (fun result q => q.holdings =
        match result with
        | .ok (some (id, resource)) =>
          (if state = .inUse then [.slot .claim id resource] else []) ++ H
        | _ => H)
      fun _ q => q.Strewn H := by
  refine Spec.bind ((hn.produce hf).mono (fun _ _ h => h) fun _ q hq =>
    (hp ▸ hq).of_cons trivial) fun result q hq => ?_
  rw [hp] at hq
  cases result with
  | ok resource =>
    apply Spec.read
    cases hc : q.closed with
    | true =>
      have hback : Spec d (unreserve 1) q
          (fun _ r => r.holdings = .product resource :: H) fun _ r => r.Strewn H := by
        refine .step (.unreserve (by simp [hq])) (.pure ?_)
        change q.holdings.erase .reservation = _
        rw [hq]
        rfl
      refine hback.bind fun _ r hr => .step (.remark _ trivial) ?_
      exact Spec.bind ((hn.letGo (.inr rfl) (by exact hr)).mono (fun _ _ h => h)
        fun _ _ h => .of_eq h) fun _ s hs => .pure hs
    | false => exact (spec_commit origin hs hc hq).bind fun id r hr => .pure hr
  | error error =>
    refine (spec_unreserve (n := 1) hq).bind fun _ r hr => ?_
    exact .step (.count _ _ trivial) (.step (.remark _ trivial) (.pure hr))

/-- A job uses up its reservations, or gives back those that are left over. -/
theorem Nests.fill (hn : Nests d nested) {origin : Origin} {stops : Pool → Bool}
    (hstops : ∀ p, stops p = false → p.MayCreate origin) {n : Nat}
    (hp : p.holdings = List.replicate n .reservation ++ H) :
    Spec d (fill nested origin stops n) p (fun _ q => q.holdings = H)
      fun _ q => q.Strewn H := by
  induction n generalizing p with
  | zero => exact .pure hp
  | succ n ih =>
    apply Spec.read
    cases hstop : stops p with
    | true => exact (spec_unreserve hp).bind fun _ q hq => .pure hq
    | false =>
      have hf := Hosts.factory (d := d) (hstops p hstop)
      rw [List.replicate_succ, List.cons_append] at hp
      refine Spec.bind ((hn.createResource hf (.inl rfl) hp).mono (fun _ _ h => h)
        fun _ _ => strewn_of_reservations) fun result q hq => ?_
      cases result with
      | ok result =>
        cases result with
        | some slot => exact (ih hq).bind fun others r hr => .pure hr
        | none => exact (spec_unreserve hq).bind fun _ r hr => .pure hr
      | error error => exact (spec_unreserve hq).bind fun _ r hr => .pure hr

end LeasePool.PoolM
