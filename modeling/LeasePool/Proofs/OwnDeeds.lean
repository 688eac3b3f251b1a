import LeasePool.Proofs.Audit
import LeasePool.Proofs.Deeds

/-!
# What an operation does itself

User code may run operations while another one is running, and these write into the same history.
The depth of a record tells them apart. What an operation does itself is written at the depth at
which it runs. All that happens in the operations inside of it is deeper, so on its behalf they do
nothing.
-/

namespace LeasePool

/-- The deed that was written down at a depth. -/
def Record.deed? (depth : Nat) (r : Record) : Option Entry :=
  if r.depth = depth ∧ r.entry.isDeed = true then some r.entry else none

namespace Pool

variable {p q r : Pool}

/-- What has been done since an earlier state, oldest first, without what was done inside of
operations that user code has run meanwhile. -/
def ownDeedsSince (p earlier : Pool) : List Entry :=
  (p.recordsSince earlier).filterMap (·.deed? earlier.depth)

/-- Own deeds are told one stretch after another, from the same depth. -/
theorem ownDeedsSince_trans (hq : p.history <:+ q.history) (hr : q.history <:+ r.history)
    (hd : q.depth = p.depth) : r.ownDeedsSince p = q.ownDeedsSince p ++ r.ownDeedsSince q := by
  simp only [ownDeedsSince, hd, recordsSince_trans hq hr, List.filterMap_append]

/-- A new entry is an own deed if it is a deed. -/
theorem ownDeedsSince_note_self (p : Pool) (e : Entry) :
    (p.note e).ownDeedsSince p = if e.isDeed = true then [e] else [] := by
  have hone : (p.note e).recordsSince p = [_] := recordsSince_cons rfl
  rw [ownDeedsSince, hone]
  by_cases he : e.isDeed = true
  · simp [Record.deed?, he]
  · simp [Record.deed?, he]

/-- A pool that has come back to its depth, and the deeds that its own history tells of. -/
structure Tells (p : Pool) (deeds : List Entry) (q : Pool) : Prop extends p.ComesBack q where
  own : q.ownDeedsSince p = deeds

/-- A pool that has come back to its depth, and whose own history tells of no deed. -/
abbrev Rests (p q : Pool) : Prop := p.Tells [] q

/-- What an operation does itself is told one stretch after another. -/
theorem Tells.trans {deeds others : List Entry} (h : p.Tells deeds q) (h' : q.Tells others r) :
    p.Tells (deeds ++ others) r where
  toComesBack := h.toComesBack.trans h'.toComesBack
  own := by rw [ownDeedsSince_trans h.history h'.history h.depth, h.own, h'.own]

/-- Nothing is told by a change that leaves the history alone. -/
theorem Rests.of_frame (h : q.frame = p.frame) : p.Rests q where
  toComesBack := (Minor.of_frame h).comesBack
  own := by
    have hhistory : q.history = [] ++ p.history := congrArg Frame.history h
    rw [ownDeedsSince, recordsSince_eq hhistory]
    rfl

/-- A deed that is written down is told, whatever is counted with it. -/
theorem Tells.note (p : Pool) (tally : Tally) {e : Entry} (he : e.isDeed = true) :
    p.Tells [e] ({ p with tally }.note e) where
  toComesBack := .note p tally e
  own := (ownDeedsSince_note_self { p with tally } e).trans (if_pos he)

/-- From outside, an operation does nothing. -/
theorem Rests.left {op : Op} (h : (p.entered op).ComesBack q) (reply : Reply) :
    p.Rests (q.left op reply) where
  toComesBack := h.left reply
  own := List.filterMap_eq_nil_iff.2 fun r hr => by
    rcases h.records_left reply hr with hdeep | ⟨-, hentry⟩
    · exact if_neg fun hown => Nat.ne_of_gt hdeep hown.1
    · rcases hentry with hentry | hentry <;> exact if_neg (by simp [hentry, Entry.isDeed])

end Pool

namespace PoolM

/-- An operation inside of user code does nothing on behalf of the operation around it. -/
theorem rests_run (budget : Nat) (op : Op) : Answers Pool.Rests (run budget op) := by
  cases budget with
  | zero => exact fun _ => Spec.exceed
  | succ budget =>
    have hinside : ∀ op, Answers Pool.Clears (run budget op) := answers_run budget
    exact answers_answering hinside (clears_perform hinside budget op) fun _ _ reply h =>
      .left h.toComesBack reply

/-- Nor do several of them. -/
theorem rests_runInside (budget : Nat) (ops : List Op) :
    Answers Pool.Rests (runInside (run budget) ops) := by
  induction ops with
  | nil => exact fun _ => Spec.pure (.of_frame rfl)
  | cons op ops ih =>
    exact fun p => Spec.bind (rests_run budget op p) fun _ q hq =>
      (ih q).mono (fun _ _ hr => hq.trans hr) fun _ _ => id

end PoolM

end LeasePool
