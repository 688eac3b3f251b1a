import LeasePool.Proofs.Sparing

/-!
# Resources under examination

While the health-care job checks a resource, no lease has it, and no acquisition can get at it. It
comes into circulation again only when its slot is put back after the check has returned.
-/

namespace LeasePool

/-- By a part of a history, a check of a resource by the health-care job has returned, and after
that the slot of the resource could be seen idle. -/
def PutBack (resource : Nat) (history : List Record) : Prop :=
  ∃ after v before, history = after ++ v :: before ∧
    (∃ result, v.entry = .verdict resource .care result) ∧
    ∃ e ∈ after, ∃ s ∈ e.seen.table.slots, s.resource = resource ∧ s.state = .idle

/-- By a history, a resource has been put back after each check by the health-care job. -/
def Settled (resource : Nat) (history : List Record) : Prop :=
  ∀ middle c earlier, history = middle ++ c :: earlier → c.entry = .check resource .care →
    PutBack resource middle

/-- The resource that a running operation can still bring to a caller. -/
def Holding.circulating? : Holding → Option Nat
  | product resource => some resource
  | slot tenure _ resource => if tenure = .examination then none else some resource
  | _ => none

/-- A slot that an operation holds circulates unless it is examined. -/
theorem Holding.circulating?_slot {tenure : Tenure} {id resource r : Nat} :
    (slot tenure id resource).circulating? = some r ↔ tenure ≠ .examination ∧ resource = r := by
  unfold circulating?
  split <;> simp_all

/-- What was put back by a history was put back by a longer one. -/
theorem PutBack.append {resource : Nat} {history : List Record} (h : PutBack resource history)
    (later : List Record) : PutBack resource (later ++ history) := by
  obtain ⟨after, v, before, rfl, hv, e, he, hidle⟩ := h
  exact ⟨later ++ after, v, before, (List.append_assoc ..).symm, hv, e,
    List.mem_append_right _ he, hidle⟩

/-- A resource that was never checked is settled. -/
theorem Settled.of_forall_ne {resource : Nat} {history : List Record}
    (h : ∀ c ∈ history, c.entry ≠ .check resource .care) : Settled resource history := by
  rintro middle c earlier rfl hc
  exact absurd hc (h c (by simp))

/-- A settled resource stays settled until it is checked again. -/
theorem Settled.append {resource : Nat} {history new : List Record} (h : Settled resource history)
    (hnew : ∀ c ∈ new, c.entry ≠ .check resource .care) : Settled resource (new ++ history) := by
  intro middle c earlier he hc
  rcases List.append_eq_append_iff.1 he with ⟨more, rfl, hhistory⟩ | ⟨more, rfl, hhistory⟩
  · exact (h more c earlier hhistory hc).append new
  · cases more with
    | nil => simpa using (h [] c earlier hhistory.symm hc).append middle
    | cons c' more =>
      obtain ⟨rfl, -⟩ := List.cons.inj hhistory
      exact absurd hc (hnew c (by simp))

/-- A resource whose checks have returned is settled when its slot is seen idle. -/
theorem Settled.of_returned {resource : Nat} {history : List Record} {e : Record}
    (h : Returned resource history) (he : e.entry ≠ .check resource .care)
    (hs : ∃ s ∈ e.seen.table.slots, s.resource = resource ∧ s.state = .idle) :
    Settled resource (e :: history) := by
  intro middle c earlier hsplit hc
  cases middle with
  | nil =>
    obtain ⟨rfl, -⟩ := List.cons.inj hsplit
    exact absurd hc he
  | cons e' middle =>
    obtain ⟨rfl, hhistory⟩ := List.cons.inj hsplit
    obtain ⟨v, hv, hverdict⟩ := h middle c earlier hhistory hc
    obtain ⟨after, before, rfl⟩ := List.append_of_mem hv
    exact ⟨e :: after, v, before, rfl, hverdict, e, List.mem_cons_self, hs⟩

namespace Pool

open PoolM (Nests)

variable {p q : Pool} {r : Nat}

/-- A resource is in circulation: its slot is in the table and not parked, it has a lease, or a
running operation can bring it to a caller. -/
def Circulates (p : Pool) (r : Nat) : Prop :=
  (∃ s ∈ p.table.slots, s.resource = r ∧ s.state ≠ .pending) ∨ (∃ l ∈ p.leases, l.resource = r) ∨
    ∃ h ∈ p.holdings, h.circulating? = some r

/-- A resource that an operation can bring to a caller circulates. -/
theorem Circulates.of_holding {h : Holding} (hh : h ∈ p.holdings) (hr : h.circulating? = some r) :
    p.Circulates r :=
  .inr (.inr ⟨h, hh, hr⟩)

/-- A leased resource circulates. -/
theorem Circulates.of_lease {l : Lease} (hl : l ∈ p.leases) (hr : l.resource = r) :
    p.Circulates r :=
  .inr (.inl ⟨l, hl, hr⟩)

/-- The resource of a slot circulates unless it is parked. -/
theorem Circulates.of_slot {s : Slot Nat} (hs : s ∈ p.table.slots) (hr : s.resource = r)
    (hstate : s.state ≠ .pending) : p.Circulates r :=
  .inl ⟨s, hs, hr, hstate⟩

/-- A resource in circulation was in circulation before, if that is so for all slots, leases and
holdings that are new. -/
theorem Circulates.before (h : q.Circulates r)
    (hh : ∀ k ∈ q.holdings, k ∈ p.holdings ∨ (k.circulating? = some r → p.Circulates r))
    (hs : ∀ s ∈ q.table.slots, s.state ≠ .pending → s ∈ p.table.slots ∨
      (s.resource = r → p.Circulates r) := by exact fun _ hs _ => .inl hs)
    (hl : ∀ l ∈ q.leases, l ∈ p.leases ∨ (l.resource = r → p.Circulates r) := by
      exact fun _ hl => .inl hl) : p.Circulates r := by
  rcases h with ⟨s, hmem, hr, hstate⟩ | ⟨l, hmem, hr⟩ | ⟨k, hmem, hr⟩
  · exact (hs s hmem hstate).elim (.of_slot · hr hstate) (· hr)
  · exact (hl l hmem).elim (.of_lease · hr) (· hr)
  · exact (hh k hmem).elim (.of_holding · hr) (· hr)

/-- A resource under examination is not in circulation. -/
theorem IsExclusive.not_circulates (hp : p.IsExclusive) {id : Nat}
    (hexamined : .slot .examination id r ∈ p.holdings) : ¬p.Circulates r := by
  have hmem : ⟨id, r, true⟩ ∈ p.owners := mem_owners_of_holding hexamined rfl
  have hother : ∀ o ∈ p.owners, o.resource = r → o.examines = true := by
    intro o ho hr
    have hslot : o.slot = id := (hp.paired (.of_owner ho) (.of_owner hmem)).2 hr
    rw [List.inj_on_of_nodup_map hp.nodup ho hmem hslot]
  rintro (⟨s, hs, hr, hstate⟩ | ⟨l, hl, hr⟩ | ⟨h, hh, hr⟩)
  · have hslot : s.id = id := (hp.paired (.of_slot hs) (.of_owner hmem)).2 hr
    exact hstate (hp.of_owner hmem hs hslot).1
  · exact absurd (hother l.owner (mem_owners_of_lease hl) hr) nofun
  · cases h with
    | product resource =>
      obtain rfl := Option.some.inj hr
      have hproduct : resource ∈ p.products := List.mem_filterMap.2 ⟨_, hh, rfl⟩
      exact (hp.unbound resource hproduct).2 id (.of_owner hmem)
    | slot tenure i resource =>
      obtain ⟨htenure, rfl⟩ := Holding.circulating?_slot.1 hr
      have hexamines := hother ⟨i, resource, tenure = .examination⟩
        (mem_owners_of_holding hh rfl) rfl
      exact htenure (of_decide_eq_true hexamines)
    | reservation | removed | reference | handle => cases hr

/-- One holding is new. If it can bring a resource to a caller, that resource was in circulation. -/
theorem mem_or_circulates_of_cons {h : Holding} {H : List Holding}
    (hh : h.circulating? = some r → p.Circulates r) (hH : ∀ k ∈ H, k ∈ p.holdings) :
    ∀ k ∈ h :: H, k ∈ p.holdings ∨ (k.circulating? = some r → p.Circulates r) := by
  intro k hk
  rcases List.mem_cons.1 hk with rfl | hk
  · exact .inr hh
  · exact .inl (hH k hk)

/-- Holdings that bring no resource to a caller do not matter. -/
theorem mem_or_circulates_of_none {K H : List Holding} (hK : ∀ k ∈ K, k.circulating? = none)
    (hH : ∀ k ∈ H, k ∈ p.holdings) :
    ∀ k ∈ K ++ H, k ∈ p.holdings ∨ (k.circulating? = some r → p.Circulates r) := by
  intro k hk
  rcases List.mem_append.1 hk with hk | hk
  · exact .inr fun hr => absurd (hr.symm.trans (hK k hk)) nofun
  · exact .inl (hH k hk)

/-- Handles bring no further resource to a caller. -/
theorem circulating?_handles (ids : List Nat) :
    ∀ k ∈ ids.map Holding.handle, k.circulating? = none := by
  intro k hk
  obtain ⟨id, -, rfl⟩ := List.mem_map.1 hk
  rfl

/-- Taking slots out of the table puts nothing into circulation. -/
theorem Circulates.of_takeOut {reason : DestroyReason} {f : Table Nat → List (Slot Nat) × Table Nat}
    (hf : ∀ s ∈ (f p.table).2.slots, s ∈ p.table.slots)
    (h : (PoolM.takeOut reason f p).2.Circulates r) : p.Circulates r := by
  have hremoved : ∀ k ∈ (f p.table).1.map (Holding.removed reason), k.circulating? = none := by
    intro k hk
    obtain ⟨s, -, rfl⟩ := List.mem_map.1 hk
    rfl
  exact h.before (mem_or_circulates_of_none hremoved fun _ => id) fun s hs _ => .inl (hf s hs)

/-- A holding is given up for one that brings no resource to a caller. -/
theorem Circulates.of_exchange {h other : Holding} (ho : other.circulating? = none)
    (hr : (p.exchange h other).Circulates r) : p.Circulates r := by
  refine hr.before (mem_or_circulates_of_cons (fun hkr => ?_) fun _ => List.mem_of_mem_erase)
  exact absurd (hkr.symm.trans ho) nofun

/-- Taking out a broken slot brings nothing into circulation. -/
theorem Circulates.of_takeOutBroken (hp : p.IsExclusive) {tenure : Tenure} {id resource : Nat}
    {reason : DestroyReason}
    (h : (PoolM.takeOutBroken tenure id resource reason p).2.Circulates r) : p.Circulates r := by
  rw [takeOutBroken_snd] at h
  have hleft : (p.disown tenure id resource).Circulates r :=
    Circulates.of_takeOut (fun _ => (Table.prunes_invalidate hp.sound.nodup id).mem) h
  exact hleft.of_exchange rfl

/-- When a parked slot is put back its resource may be in circulation. If so, the slot is idle. -/
theorem Circulates.of_putBack (hp : p.IsExclusive) {id resource : Nat}
    {change : Slot Nat → Slot Nat} (hh : .slot .examination id resource ∈ p.holdings)
    (hc : ∀ s, s.state = .pending → (change s).state = .idle)
    (hr : ∀ s, (change s).resource = s.resource)
    (h : ((p.onTable (·.modify id change)).disown .examination id resource).Circulates r) :
    p.Circulates r ∨ r = resource ∧
      ∃ s ∈ (p.table.modify id change).slots, s.resource = r ∧ s.state = .idle := by
  rcases h with ⟨s, hs, rfl, hstate⟩ | hl | ⟨k, hk, hkr⟩
  · rcases Table.mem_modify_iff_or hs with ⟨hs, -⟩ | ⟨s', hs', hid, rfl⟩
    · exact .inl (.of_slot hs rfl hstate)
    · have howner : ⟨id, resource, true⟩ ∈ p.owners := mem_owners_of_holding hh rfl
      obtain ⟨hpending, hresource⟩ := hp.of_owner howner hs' hid
      exact .inr ⟨(hr s').trans hresource, change s', hs, rfl, hc s' hpending⟩
  · exact .inl (.inr (.inl hl))
  · rcases List.mem_cons.1 hk with rfl | hk
    · cases hkr
    · exact .inl (.of_holding (List.mem_of_mem_erase hk) hkr)

/-- A resource comes into circulation when the factory makes it, or when its slot is put back after
its check has returned. -/
theorem Step.circulates (hp : p.IsExclusive) (h : p.Step q) (hr : q.Circulates r) :
    p.Circulates r ∨ r = p.made ∨ p.HasConcluded r ∧ ∃ e, q.history = e :: p.history ∧
      (∀ checker, e.entry ≠ .check r checker) ∧
      ∃ s ∈ e.seen.table.slots, s.resource = r ∧ s.state = .idle := by
  cases h with
  | make =>
    by_cases he : r = p.made
    · exact .inr (.inl he)
    · refine .inl (hr.before (mem_or_circulates_of_cons (fun hkr => ?_) fun _ => id))
      exact absurd (Option.some.inj hkr).symm he
  | commit resource state origin _ _ hproduct =>
    have hcirculates : r = resource → p.Circulates r := fun he => .of_holding hproduct (he ▸ rfl)
    refine .inl (hr.before (fun k hk => ?_) fun s hs _ => ?_)
    · rcases List.mem_append.1 hk with hk | hk
      · refine .inr fun hkr => hcirculates ?_
        split at hk
        · rw [List.mem_singleton.1 hk, Holding.circulating?_slot] at hkr
          exact hkr.2.symm
        · exact absurd hk List.not_mem_nil
      · exact .inl (List.mem_of_mem_erase (List.mem_of_mem_erase hk))
    · rcases Table.mem_or_new_of_mem_commit hs with hs | ⟨-, hresource, -⟩
      · exact .inl hs
      · exact .inr fun he => hcirculates (he.symm.trans hresource)
  | reserve origin wanted =>
    refine .inl (hr.before (mem_or_circulates_of_none (fun k hk => ?_) fun _ => id))
    rw [List.eq_of_mem_replicate hk]
    rfl
  | unreserve | letGoHandle => exact .inl (hr.before fun k hk => .inl (List.mem_of_mem_erase hk))
  | claim s t h =>
    obtain ⟨s', hs', hidle, rfl, rfl⟩ := Table.claimIdle_eq_some h
    have hcirculates : p.Circulates s'.resource := .of_slot hs' rfl (by simp [hidle])
    refine .inl (hr.before (mem_or_circulates_of_cons (fun hkr => ?_) fun _ => id) fun s hs _ => ?_)
    · exact (Holding.circulating?_slot.1 hkr).2 ▸ hcirculates
    · rcases Table.mem_modify_iff_or hs with ⟨hs, -⟩ | ⟨other, hother, hid, rfl⟩
      · exact .inl hs
      · rw [hp.sound.eq_of_id hother hs' hid]
        exact .inr fun he => he ▸ hcirculates
  | park id s t h =>
    obtain ⟨s', -, -, -, rfl, rfl⟩ := Table.claimForCheck_eq_some h
    refine .inl (hr.before (mem_or_circulates_of_cons nofun fun _ hk => hk) fun s hs hstate => ?_)
    rcases Table.mem_modify_iff_or hs with ⟨hs, -⟩ | ⟨other, -, -, rfl⟩
    · exact .inl hs
    · exact absurd rfl hstate
  | confirm =>
    refine .inl (hr.before (fun _ => .inl) fun s hs hstate => .inr fun he => ?_)
    rcases Table.mem_modify_iff_or hs with ⟨hs, -⟩ | ⟨other, hother, -, rfl⟩
    · exact .of_slot hs he hstate
    · exact .of_slot hother he hstate
  | countAcquired id resource h =>
    exact .inl (hr.before (mem_or_circulates_of_cons (fun hkr => .of_holding h hkr)
      fun _ => List.mem_of_mem_erase))
  | beginLease id resource h =>
    refine .inl (hr.before (mem_or_circulates_of_cons nofun fun _ => List.mem_of_mem_erase)
      (fun _ hs _ => .inl hs) fun l hl => ?_)
    rcases List.mem_cons.1 hl with rfl | hl
    · exact .inr fun he => .of_holding h (congrArg some he)
    · exact .inl hl
  | nameHandle name lease =>
    exact .inl (hr.before (mem_or_circulates_of_none (circulating?_handles _)
      fun _ => List.mem_of_mem_erase))
  | unnameHandle name =>
    exact .inl (hr.before (mem_or_circulates_of_none (circulating?_handles _) fun _ => id))
  | cloneHandle | refer =>
    exact .inl (hr.before (mem_or_circulates_of_cons nofun fun _ => id))
  | endLease l h =>
    refine .inl (hr.before (mem_or_circulates_of_cons (fun hkr => ?_)
      fun _ => List.mem_of_mem_erase) (fun _ hs _ => .inl hs)
      fun _ hl => .inl (List.mem_of_mem_erase hl))
    exact .of_lease h (Holding.circulating?_slot.1 hkr).2
  | invalidateLease id =>
    refine .inl (hr.before (fun _ => .inl) (fun _ hs _ => .inl hs) fun l hl => .inr fun he => ?_)
    obtain ⟨other, hother, rfl⟩ := List.mem_map.1 hl
    refine .of_lease hother ?_
    rw [← he]
    split <;> rfl
  | giveBack lease h =>
    have howner := mem_owners_of_holding h rfl
    refine .inl (hr.before (mem_or_circulates_of_cons nofun fun _ => List.mem_of_mem_erase)
      fun s hs _ => ?_)
    rcases Table.mem_modify_iff_or hs with ⟨hs, -⟩ | ⟨other, hother, hid, rfl⟩
    · exact .inl hs
    · refine .inr fun he => .of_holding h ?_
      rw [← he]
      exact congrArg some (hp.of_owner howner hother hid).2.symm
  | giveUp lease reason => exact .inl (Circulates.of_takeOutBroken hp hr)
  | takeOutBroken => exact .inl (Circulates.of_takeOutBroken hp hr)
  | takeOutLru n =>
    exact .inl (Circulates.of_takeOut (fun _ => (Table.prunes_removeIdleLru n _).mem) hr)
  | takeOutExpired f =>
    exact .inl (Circulates.of_takeOut (fun _ => (Table.prunes_removeIdleWhere f _).mem) hr)
  | drain => exact .inl (Circulates.of_takeOut (fun _ => (Table.prunes_drain _).mem) hr)
  | destroyOne =>
    rw [bury_eq] at hr
    exact .inl (hr.before fun k hk => .inl (List.mem_of_mem_erase hk))
  | letGo =>
    rw [discard_eq] at hr
    exact .inl (hr.before fun k hk => .inl (List.mem_of_mem_erase hk))
  | lose h rest resource hh =>
    rw [settle_eq] at hr
    exact .inl (hr.before fun k hk => .inl (hh ▸ List.mem_cons_of_mem _ hk))
  | reinstate id resource h hc =>
    have hidle : ∀ s : Slot Nat, s.state = .pending →
        (PoolM.passed p.clock.read.now s).state = .idle := fun s hs => by
      rw [PoolM.state_passed, PoolM.state_unparked, if_pos hs]
    refine (Circulates.of_putBack hp h hidle (PoolM.resource_passed _) hr).imp_right ?_
    rintro ⟨rfl, hs⟩
    exact .inr ⟨hc, _, rfl, nofun, hs⟩
  | unpark id resource error h hc =>
    have hidle : ∀ s : Slot Nat, s.state = .pending → (PoolM.unparked s).state = .idle :=
      fun s hs => by rw [PoolM.state_unparked, if_pos hs]
    refine (Circulates.of_putBack hp h hidle PoolM.resource_unparked hr).imp_right ?_
    rintro ⟨rfl, hs⟩
    exact .inr ⟨hc, _, rfl, nofun, hs⟩
  | _ => exact .inl hr

/-- All resources that were checked had been made, and those in circulation are settled. -/
structure IsAttended (p : Pool) : Prop where
  known : ∀ c ∈ p.history, ∀ r, c.entry = .check r .care → r < p.made ∧ p.user.checkStyle ≠ none
  settled : ∀ r, p.Circulates r → Settled r p.history

/-- What the health-care job checks is under examination. -/
theorem examined_of_justifies {c : Record} (hj : p.Justifies c) (hc : c.entry = .check r .care) :
    c.seen = p.sight ∧ (∃ id, .slot .examination id r ∈ p.holdings) ∧ p.user.checkStyle ≠ none := by
  rw [Justifies, hc] at hj
  exact ⟨hj.1, hj.2.1, hj.2.2.1⟩

/-- A resource in circulation is not checked by the health-care job. -/
theorem IsExclusive.entry_ne_check (hp : p.IsExclusive) (hr : p.Circulates r) {c : Record}
    (hj : p.Justifies c) : c.entry ≠ .check r .care := by
  intro hc
  obtain ⟨-, ⟨id, hh⟩, -⟩ := examined_of_justifies hj hc
  exact hp.not_circulates hh hr

/-- Every step keeps the resources in circulation settled. -/
theorem IsAttended.step (hp : p.IsAttended) (hexclusive : p.IsExclusive) (h : p.Step q) :
    q.IsAttended := by
  obtain ⟨new, hnew, hjustified⟩ := h.justified
  have hknown : ∀ c ∈ q.history, ∀ r, c.entry = .check r .care →
      r < p.made ∧ p.user.checkStyle ≠ none := by
    intro c hc r he
    rw [hnew] at hc
    rcases List.mem_append.1 hc with hc | hc
    · obtain ⟨-, ⟨id, hh⟩, hstyle⟩ := examined_of_justifies (hjustified c hc) he
      exact ⟨hexclusive.known (.of_owner (mem_owners_of_holding hh rfl)), hstyle⟩
    · exact hp.known c hc r he
  constructor
  · intro c hc r he
    rw [h.checkStyle]
    exact (hknown c hc r he).imp_left fun hlt => Nat.lt_of_lt_of_le hlt h.made_le
  · intro r hr
    rcases h.circulates hexclusive hr with hr | rfl | ⟨hconcluded, e, he, hother, hs⟩
    · rw [hnew]
      exact (hp.settled r hr).append fun c hc => hexclusive.entry_ne_check hr (hjustified c hc)
    · exact .of_forall_ne fun c hc he => Nat.lt_irrefl _ (hknown c hc _ he).1
    · rcases hconcluded with hnone | hreturned
      · exact .of_forall_ne fun c hc he => (hknown c hc r he).2 hnone
      · rw [he]
        exact .of_returned hreturned (hother _) hs

/-- A new pool has checked nothing. -/
theorem IsAttended.of_isNew (hp : p.IsNew) : p.IsAttended := by
  obtain ⟨⟩ := hp
  exact ⟨fun _ hc => absurd hc List.not_mem_nil,
    fun _ _ => .of_forall_ne fun _ hc => absurd hc List.not_mem_nil⟩

/-- In a run, what was checked and is in circulation has been put back. -/
theorem Arises.isAttended (h : q.Arises) : q.IsAttended := by
  refine And.right (h.invariant (I := fun p => p.IsExclusive ∧ p.IsAttended) ?_ ?_)
  · exact fun p hp => ⟨.of_isNew hp, .of_isNew hp⟩
  · exact fun p q ⟨hexclusive, hp⟩ hs => ⟨hexclusive.step hs, hp.step hexclusive hs⟩

/-- When the health-care job starts to check a resource, no lease has it. -/
theorem Arises.not_leased (h : q.Arises) {c : Record} (hmem : c ∈ q.history)
    (hc : c.entry = .check r .care) : ∀ l ∈ c.seen.leases, l.resource ≠ r := by
  obtain ⟨later, earlier, hsplit⟩ := List.append_of_mem hmem
  obtain ⟨p, hp, -, hj, -⟩ := h.exists_writer hsplit
  obtain ⟨hseen, ⟨id, hh⟩, -⟩ := examined_of_justifies hj hc
  rw [hseen]
  exact fun l hl hr => hp.isExclusive.not_circulates hh (.of_lease hl hr)

/-- After the health-care job has started to check a resource, the resource is handed out only when
it has been put back. -/
theorem Arises.putBack (h : q.Arises) {later middle earlier : List Record} {x c : Record} {id : Nat}
    (he : q.history = later ++ x :: (middle ++ c :: earlier)) (hc : c.entry = .check r .care)
    (hx : x.entry = .handedOut id r) : PutBack r middle := by
  obtain ⟨p, hp, -, hj, same, hsame, hjustified⟩ := h.exists_writer he
  have hcirculates : p.Circulates r := by
    unfold Justifies at hj
    rw [hx] at hj
    exact .of_holding hj rfl
  have hsettled : Settled r (same ++ p.history) :=
    (hp.isAttended.settled r hcirculates).append
      fun e he => hp.isExclusive.entry_ne_check hcirculates (hjustified e he)
  exact hsettled middle c earlier hsame.symm hc

/-- At any moment of a run, a cycle of a job consists of steps of its own, which leave all slots in
use as they are, and of operations inside of calls of user code. When the health-care job starts to
check a resource no lease has it, and it is handed out again only after the check has returned and
then its slot was put back. -/
theorem Arises.jobs_spare_in_use (h : q.Arises) :
    (∀ nested, Nests publicRun nested →
      Relation.ReflTransGen (CycleMove nested) q (PoolM.keeperCycle nested q).2 ∧
      Relation.ReflTransGen (CycleMove nested) q (PoolM.careCycle nested q).2) ∧
    (∀ c ∈ q.history, ∀ r, c.entry = .check r .care → ∀ l ∈ c.seen.leases, l.resource ≠ r) ∧
    (∀ later x middle c earlier id r, q.history = later ++ x :: (middle ++ c :: earlier) →
      c.entry = .check r .care → x.entry = .handedOut id r → PutBack r middle) :=
  ⟨fun _ hn => ⟨hn.moves_keeperCycle h, hn.moves_careCycle h⟩, fun _ hmem _ => h.not_leased hmem,
    fun _ _ _ _ _ _ _ => h.putBack⟩

instance (e : Entry) (resource : Nat) (checker : Checker) :
    Decidable (e = .check resource checker) :=
  decidable_of_iff ((match e with
      | .check r c => r == resource && c == checker
      | _ => false) = true) <| by
    cases e <;> simp

instance (e : Entry) (slot resource : Nat) : Decidable (e = .handedOut slot resource) :=
  decidable_of_iff ((match e with
      | .handedOut s r => s == slot && r == resource
      | _ => false) = true) <| by
    cases e <;> simp

/-- The check of the only resource tries to acquire it, and is refused. The resource is handed out
when it has been put back. -/
theorem jobs_spare_in_use_check_acquires :
    let user : UserCode :=
      { UserCode.plain with
        checkStyle := some .direct
        checkDefault := ⟨[], ⟨[.acquire "a"], .answer (.ok .healthy)⟩⟩ }
    let kept := (PoolM.run 3 .keeper (new "pool" { desiredCount := 1, maxCount := 1 } user)).2
    let q := (PoolM.run 3 (.acquire "b") (PoolM.run 3 .care kept).2).2
    Relation.ReflTransGen (CycleMove (PoolM.run 2)) kept (PoolM.careCycle (PoolM.run 2) kept).2 ∧
    ∃ later x middle c earlier, q.history = later ++ x :: (middle ++ c :: earlier) ∧
      c.entry = .check 0 .care ∧ x.entry = .handedOut 1 0 ∧ PutBack 0 middle := by
  intro user kept q
  have huser : user.IsPublic :=
    { UserCode.plain_runs _ with
      checkDefault := List.forall_mem_singleton.2 (.of_installs_eq_nil rfl rfl) }
  have hstart : (new "pool" { desiredCount := 1, maxCount := 1 } user).Reachable :=
    reachable_new "pool" _ huser (by decide)
  have hkept : kept.Reachable := hstart.next (.of_installs_eq_nil rfl rfl) (by decide +kernel)
  have hcared : (PoolM.run 3 .care kept).2.Reachable :=
    hkept.next (.of_installs_eq_nil rfl rfl) (by decide +kernel)
  have hq : q.Reachable := hcared.next (.of_installs_eq_nil rfl rfl) (by decide +kernel)
  refine ⟨(hkept.arises.jobs_spare_in_use.1 _ (PoolM.nests_run 2)).2, ?_⟩
  have hout : ∃ x ∈ q.history.take 4, x.entry = .handedOut 1 0 := by decide +kernel
  have hcheck : ∃ c ∈ q.history.drop 4, c.entry = .check 0 .care := by decide +kernel
  obtain ⟨x, hx, hhanded⟩ := hout
  obtain ⟨c, hc, hchecked⟩ := hcheck
  obtain ⟨later, before, hlater⟩ := List.append_of_mem hx
  obtain ⟨after, earlier, hearlier⟩ := List.append_of_mem hc
  have hsplit : q.history = later ++ x :: ((before ++ after) ++ c :: earlier) := by
    rw [← List.take_append_drop 4 q.history, hlater, hearlier]
    simp
  exact ⟨later, x, before ++ after, c, earlier, hsplit, hchecked, hhanded,
    hq.arises.jobs_spare_in_use.2.2 _ _ _ _ _ _ _ hsplit hchecked hhanded⟩

end Pool

end LeasePool
