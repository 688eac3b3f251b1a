import LeasePool.Proofs.History

/-!
# Marks of healthy slots

A slot is marked when its resource is found healthy, by an acquisition or by the health-care job.
No user code runs between the verdict and the mark, so the history has them side by side.
-/

namespace LeasePool

/-- A check on access or by the health-care job finds the resource of a slot healthy. The operation
owns the slot when the verdict is given. -/
def Record.Approves (x : Record) (slot : Nat) : Prop :=
  ∃ resource,
    x.entry = .verdict resource .access (.ok .healthy) ∧
      .slot .claim slot resource ∈ x.seen.holdings ∨
    x.entry = .verdict resource .care (.ok .healthy) ∧
      .slot .examination slot resource ∈ x.seen.holdings

/-- An entry neither marks a slot nor lets one be marked. -/
def Entry.MarksNothing (e : Entry) : Prop :=
  ∀ f, e.finding? = some f → ∃ resource, f = .broken resource

/-- In a history, the latest entry first, each healthy verdict on access or by the health-care job
comes right before the mark of the slot that was checked. Without a health check there may be other
marks. -/
inductive Marks (checks : Prop) : List Record → Prop
  | nil : Marks checks []
  | aside {x : Record} {history : List Record} (hx : x.entry.MarksNothing)
      (h : Marks checks history) : Marks checks (x :: history)
  | mark {x v : Record} {slot : Nat} {history : List Record} (hx : x.entry = .confirmed slot)
      (hv : v.Approves slot) (h : Marks checks history) : Marks checks (x :: v :: history)
  | unchecked {x : Record} {slot : Nat} {history : List Record} (hx : x.entry = .confirmed slot)
      (hc : ¬checks) (h : Marks checks history) : Marks checks (x :: history)

/-- Entries that mark nothing keep the marks right. -/
theorem Marks.append {checks : Prop} {history : List Record} (h : Marks checks history)
    {new : List Record} (hnew : ∀ x ∈ new, x.entry.MarksNothing) :
    Marks checks (new ++ history) := by
  induction new with
  | nil => exact h
  | cons x new ih =>
    exact .aside (hnew x List.mem_cons_self) (ih fun y hy => hnew y (List.mem_cons_of_mem _ hy))

/-- An entry that finds nothing out marks nothing. -/
theorem Entry.marksNothing_of_none {e : Entry} (h : e.finding? = none) : e.MarksNothing :=
  fun _ hf => absurd (h.symm.trans hf) nofun

/-- A verdict that finds its resource broken lets no slot be marked. -/
theorem Entry.marksNothing_of_condemns {resource : Nat} {checker : Checker}
    {result : Except CheckError Verdict} (h : checker.condemns result = true) :
    (Entry.verdict resource checker result).MarksNothing :=
  fun _ hf => ⟨resource, (Option.some.inj ((if_pos h).symm.trans hf)).symm⟩

/-- The end of a lease marks nothing. -/
theorem Entry.marksNothing_returned (slot resource : Nat) (invalidated : Bool) :
    (Entry.returned slot resource invalidated).MarksNothing := by
  cases invalidated with
  | false => exact marksNothing_of_none rfl
  | true => exact fun _ hf => ⟨resource, (Option.some.inj hf).symm⟩

/-- An objection on access or on release finds the resource broken. -/
theorem Checker.condemns_of_objection {checker : Checker} {result : Except CheckError Verdict}
    {reason : String} (hc : checker = .access ∨ checker = .release)
    (h : Verdict.objection? result = some reason) : checker.condemns result = true := by
  rcases hc with rfl | rfl <;> rcases result with error | _ | _ <;> first | rfl | cases h

namespace Pool

variable {p q : Pool}

/-- The history of a pool has verdicts and marks side by side. -/
def IsMarked (p : Pool) : Prop := Marks (p.user.checkStyle ≠ none) p.history

/-- What is found out by the new entries of a history is new. -/
theorem finding?_eq_none_of_findings {new : List Record} (hnew : q.history = new ++ p.history)
    (hf : q.findings = p.findings) : ∀ x ∈ new, x.entry.finding? = none := by
  have hnil : new.filterMap (·.entry.finding?) = [] := by
    rw [findings, hnew, List.filterMap_append] at hf
    exact List.append_left_eq_self.1 hf
  exact List.filterMap_eq_nil_iff.1 hnil

/-- Steps that write no marks keep them right. -/
theorem IsMarked.of_append (hp : p.IsMarked) (h : p.Steps q) (new : List Record)
    (hnew : q.history = new ++ p.history) (hmarks : ∀ x ∈ new, x.entry.MarksNothing) :
    q.IsMarked := by
  rw [IsMarked, h.checkStyle, hnew]
  exact Marks.append hp hmarks

/-- Rejecting a resource marks no slot. -/
theorem Rejects.isMarked (h : p.Rejects q) (hp : p.IsMarked) : q.IsMarked := by
  have hsteps : p.Steps q := h.steps
  cases h with
  | access id resource result reason h hr =>
    refine hp.of_append hsteps [_, _] rfl ?_
    refine List.forall_mem_cons.2 ⟨Entry.marksNothing_of_none rfl, List.forall_mem_singleton.2 ?_⟩
    exact Entry.marksNothing_of_condemns (Checker.condemns_of_objection (.inl rfl) hr)
  | release lease result reason h hr =>
    refine hp.of_append hsteps [_, _, _] rfl ?_
    refine List.forall_mem_cons.2 ⟨Entry.marksNothing_returned _ _ _, List.forall_mem_cons.2
      ⟨Entry.marksNothing_of_none rfl, List.forall_mem_singleton.2 ?_⟩⟩
    exact Entry.marksNothing_of_condemns (Checker.condemns_of_objection (.inr rfl) hr)
  | invalidated lease h =>
    exact hp.of_append hsteps [_] rfl
      (List.forall_mem_singleton.2 (Entry.marksNothing_returned _ _ _))

/-- A resource that passes a check of a cycle is marked as healthy. -/
theorem Passes.isMarked (h : p.Passes q) (hp : p.IsMarked) : q.IsMarked := by
  cases h with
  | checked id resource h => exact Marks.mark rfl ⟨resource, .inr ⟨rfl, h⟩⟩ hp
  | unchecked id resource h hs => exact Marks.unchecked rfl (not_not.2 hs) hp

/-- A resource that an acquisition approves is marked as healthy. -/
theorem Approves.isMarked (h : p.Approves q) (hp : p.IsMarked) : q.IsMarked := by
  cases h with
  | checked id resource h => exact Marks.mark rfl ⟨resource, .inl ⟨rfl, h⟩⟩ hp
  | unchecked id resource h hs => exact Marks.unchecked rfl (not_not.2 hs) hp

/-- Every move keeps verdicts and marks side by side. -/
theorem Move.isMarked (h : p.Move q) (hp : p.IsMarked) : q.IsMarked := by
  have hsteps : p.Steps q := h.steps
  cases h with
  | step h hf =>
    obtain ⟨new, hnew⟩ := h.history_suffix
    exact hp.of_append hsteps new hnew.symm fun x hx =>
      Entry.marksNothing_of_none (finding?_eq_none_of_findings hnew.symm hf x hx)
  | weed h =>
    obtain ⟨id, resource, reason, h⟩ := h
    exact hp.of_append hsteps [_] rfl
      (List.forall_mem_singleton.2 (Entry.marksNothing_of_condemns rfl))
  | reject h => exact h.isMarked hp
  | pass h => exact h.isMarked hp
  | approve h => exact h.isMarked hp

/-- In all that surfaces in a run, verdicts and marks are side by side. -/
theorem Surfaces.isMarked (h : q.Surfaces) : q.IsMarked := by
  refine h.invariant (fun p hp => ?_) fun _ _ hp hmove => hmove.isMarked hp
  obtain ⟨⟩ := hp
  exact .nil

end Pool

end LeasePool
