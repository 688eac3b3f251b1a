import LeasePool.Proofs.Minor

/-!
# Troubles of health-care cycles

The history of a cycle also tells of the operations that user code has run inside of it, and these
may be cycles themselves. The depth of a record tells them apart: what an action itself writes down
is written at the depth at which it started, and everything inside of a nested operation is deeper.
This module follows which troubles an action adds at its own depth. It is used for the checks that
give no verdict and for the replacements that fail.
-/

namespace LeasePool

/-- Something that goes wrong in a cycle of the health-care job. -/
inductive Trouble
  /-- A check gave no verdict. -/
  | check (error : CheckError)
  /-- A replacement failed. -/
  | replacement (text : String)
deriving DecidableEq

/-- The trouble of the health-care job that an entry tells of. -/
def Entry.trouble? : Entry → Option Trouble
  | .verdict _ .care (.error error) => some (.check error)
  | .event (.resourceCreationFailed .healthCareJob text) => some (.replacement text)
  | _ => none

/-- A minor entry tells of no trouble. -/
theorem Entry.trouble?_eq_none {e : Entry} (h : e.isMinor = true) : e.trouble? = none := by
  cases e with
  | verdict => cases h
  | event event => cases event <;> first | rfl | cases h
  | _ => rfl

/-- The trouble that was written down at a depth. -/
def Record.trouble? (depth : Nat) (r : Record) : Option Trouble :=
  if r.depth = depth then r.entry.trouble? else none

namespace Pool

variable {p q r : Pool} {ts us : List Trouble}

/-- The troubles since an earlier state, oldest first, without those of nested operations. -/
def troublesSince (p earlier : Pool) : List Trouble :=
  (p.recordsSince earlier).filterMap (·.trouble? earlier.depth)

/-- An action has come back to the depth at which it started, and has met troubles of its own. -/
structure Adds (p : Pool) (ts : List Trouble) (q : Pool) : Prop extends p.ComesBack q where
  troubles : q.troublesSince p = ts

/-- An action has come back to the depth at which it started, and has met no trouble of its own. -/
def Spared (p q : Pool) : Prop := p.Adds [] q

/-- Troubles are met one after another. -/
theorem Adds.trans (h : p.Adds ts q) (h' : q.Adds us r) : p.Adds (ts ++ us) r where
  toComesBack := h.toComesBack.trans h'.toComesBack
  troubles := by
    rw [troublesSince, recordsSince_trans h.history h'.history, List.filterMap_append,
      ← h.troubles, ← h'.troubles, troublesSince, troublesSince, h.depth]

/-- A minor change meets no trouble. -/
theorem Minor.spared (h : p.Minor q) : p.Spared q where
  toComesBack := h.comesBack
  troubles := List.filterMap_eq_nil_iff.2 fun r hr => by
    obtain ⟨hdepth, hminor⟩ := h.records hr
    rw [Record.trouble?, if_pos hdepth, Entry.trouble?_eq_none hminor]

instance : Course Spared where
  minor := Minor.spared
  trans := Adds.trans

/-- An entry may tell of a trouble. -/
theorem Adds.note (p : Pool) (tally : Tally) (e : Entry) :
    p.Adds e.trouble?.toList ({ p with tally }.note e) where
  toComesBack := .note p tally e
  troubles := by
    have hone : ({ p with tally }.note e).recordsSince p = [_] := recordsSince_cons rfl
    rw [troublesSince, hone, List.filterMap_cons, Record.trouble?, if_pos rfl]
    cases e.trouble? <;> rfl

/-- What has happened inside of an operation is no trouble of the action that has run it. -/
theorem Adds.nest {op : Op} (h : (p.entered op).ComesBack q) (reply : Reply) :
    p.Spared (q.left op reply) where
  toComesBack := h.left reply
  troubles := List.filterMap_eq_nil_iff.2 fun r hr => by
    rcases h.records_left reply hr with hdeep | ⟨-, hentry⟩
    · exact if_neg (Nat.ne_of_gt hdeep)
    · refine ite_eq_right_iff.2 fun _ => ?_
      rcases hentry with hentry | hentry <;> rw [hentry] <;> rfl

end Pool

namespace PoolM

variable {α β : Type} {m : PoolM α} {f : α → PoolM β} {p : Pool}
  {done done' : α → List Trouble → Prop} {after : β → List Trouble → Prop}

/-- An action comes back to its depth unless the budget runs out, and if it ends with a value, that
goes with the troubles that it has met. -/
abbrev Meets (m : PoolM α) (p : Pool) (done : α → List Trouble → Prop) : Prop :=
  Leaves m p (fun value q => ∃ ts, p.Adds ts q ∧ done value ts) p.ComesBack

/-- An action that meets no trouble of its own, also if it panics. -/
abbrev Smooth (m : PoolM α) : Prop := Keeps Pool.Spared m

/-- An action that is known to end with a value. -/
theorem Meets.of_done {value : α} {q : Pool} {ts : List Trouble} (h : m p = (.done value, q))
    (hadds : p.Adds ts q) (hd : done value ts) : Meets m p done :=
  Spec.of_done h trivial ⟨ts, hadds, hd⟩

theorem Meets.pure {value : α} (h : done value []) : Meets (Pure.pure value) p done :=
  .of_done rfl (Pool.Minor.spared (.of_frame rfl)) h

theorem Meets.weaken (h : Meets m p done) (hd : ∀ value ts, done value ts → done' value ts) :
    Meets m p done' :=
  Spec.weaken h fun value _ ⟨ts, hadds, hdone⟩ => ⟨ts, hadds, hd value ts hdone⟩

/-- Two actions in sequence meet the troubles of both. -/
theorem Meets.bind (hm : Meets m p done)
    (hf : ∀ value q ts, done value ts → Meets (f value) q fun v us => after v (ts ++ us)) :
    Meets (m >>= f) p after := by
  refine Spec.bind hm fun value q ⟨ts, hadds, hdone⟩ => ?_
  refine Spec.mono (hf value q ts hdone) (fun v r ⟨us, hmore, hafter⟩ => ?_) fun _ _ hr => ?_
  · exact ⟨ts ++ us, hadds.trans hmore, hafter⟩
  · exact hadds.toComesBack.trans hr

/-- Looking at the pool before an action. -/
theorem Meets.read {g : Pool → α} (h : Meets (f (g p)) p after) :
    Meets (PoolM.read g >>= f) p after := h

/-- A smooth action before another one. -/
theorem Keeps.before (hm : Smooth m) (hf : ∀ value q, Meets (f value) q after) :
    Meets (m >>= f) p after := by
  have hmeets : Meets m p fun _ ts => ts = [] :=
    Spec.mono (hm p) (fun _ _ h => ⟨[], h, rfl⟩) fun _ _ h => h.toComesBack
  refine hmeets.bind fun value q _ hts => ?_
  subst hts
  exact hf value q

/-- A panic is caught, whatever troubles came before it. -/
theorem Meets.attempt {nested : Op → PoolM Reply} (hn : ∀ op, Answers Pool.Spared (nested op))
    (hm : Meets m p done) : Meets (PoolM.attempt nested m) p fun result ts =>
    match result with
    | .ok value => done value ts
    | .error _ => True := by
  refine (Spec.attempt (fun _ => p.ComesBack) hm fun _ q hq => ?_).weaken fun result q hq => ?_
  · exact (answers_unwind hn _ q).mono (fun _ _ hr => hq.trans hr.toComesBack) fun _ _ =>
      False.elim
  · cases result with
    | ok value => exact hq
    | error panic => exact ⟨_, ⟨hq, rfl⟩, trivial⟩

/-- An entry is written down that tells of no trouble. -/
theorem smooth_note {e : Entry} (he : e.trouble? = none) : Smooth (change (·.note e)) := by
  intro p
  have hadds := Pool.Adds.note p p.tally e
  rw [he] at hadds
  exact Spec.of_done rfl trivial hadds

/-- What runs inside of an operation is none of the troubles around it. -/
theorem smooth_answering {nested : Op → PoolM Reply} {body : PoolM Reply}
    (hn : ∀ op, Answers Pool.ComesBack (nested op)) (hb : Keeps Pool.ComesBack body) (op : Op) :
    Answers Pool.Spared (answering nested op body) :=
  answers_answering hn hb fun _ _ reply h => .nest h reply

end PoolM

end LeasePool
