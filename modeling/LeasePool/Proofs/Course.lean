import LeasePool.Pool.Report
import LeasePool.Proofs.Spec
import LeasePool.Proofs.UserCode

/-!
# Courses of actions

A course is a way in which a pool may change while an action runs, whether the action ends with a
value or with a panic. Nothing is said of an action whose budget runs out. Most parts of an action
are minor: they keep the depth, the configuration and what is counted of health checks, and they
write down nothing about health checks or failed creations. A course that allows minor changes is
kept by all these parts, and by the calls of user code if the operations inside of them keep it.
-/

namespace LeasePool

/-- Whether an entry has to do neither with a health check nor with a failed creation. -/
def Entry.isMinor : Entry → Bool
  | .check .. | .verdict .. => false
  | .event (.healthCheckFailed ..) | .event (.resourceCreationFailed ..) => false
  | _ => true

/-- What counts health checks. -/
def Counter.countsChecks : Counter → Bool
  | .healthChecks | .healthCheckFailures | .healthCheckErrors => true
  | _ => false

/-- What of a pool the minor parts of actions keep, or change in few ways. -/
structure Frame where
  depth : Nat
  config : Config
  checkStyle : Option CheckStyle
  hook : Hook
  healthChecks : UInt64
  healthCheckFailures : UInt64
  healthCheckErrors : UInt64
  history : List Record

namespace Pool

variable {p q : Pool}

/-- The frame of a pool at this moment. -/
def frame (p : Pool) : Frame where
  depth := p.depth
  config := p.config
  checkStyle := p.user.checkStyle
  hook := p.user.hook
  healthChecks := p.tally.healthChecks
  healthCheckFailures := p.tally.healthCheckFailures
  healthCheckErrors := p.tally.healthCheckErrors
  history := p.history

/-- A minor change: a hook may have moved on, and minor entries may have been written down. -/
structure Minor (p q : Pool) : Prop where
  parts : ∃ hook new, q.frame = { p.frame with hook, history := new ++ p.history } ∧
    ∀ r ∈ new, r.depth = p.depth ∧ r.entry.isMinor = true
  hook : ∀ P, p.user.hook.Runs P → q.user.hook.Runs P

/-- Changes outside of the frame are minor. -/
theorem Minor.of_frame (h : q.frame = p.frame) : p.Minor q where
  parts := ⟨p.user.hook, [], h, fun _ hr => absurd hr List.not_mem_nil⟩
  hook P hp := by
    have hhook : q.user.hook = p.user.hook := congrArg Frame.hook h
    rwa [hhook]

/-- Writing down a minor entry is minor. -/
theorem Minor.of_record (r : Record) (h : q.frame = { p.frame with history := r :: p.history })
    (hd : r.depth = p.depth) (hr : r.entry.isMinor = true) : p.Minor q where
  parts := ⟨p.user.hook, [r], h, List.forall_mem_singleton.2 ⟨hd, hr⟩⟩
  hook P hp := by
    have hhook : q.user.hook = p.user.hook := congrArg Frame.hook h
    rwa [hhook]

/-- Giving a holding back is minor. -/
theorem Minor.giveBackLatest (p : Pool) : p.Minor p.giveBackLatest := by
  refine .of_frame ?_
  rw [giveBackLatest_eq]
  rfl

/-- A way in which a pool may change that allows all minor changes. -/
class Course (R : Pool → Pool → Prop) : Prop where
  minor : ∀ {p q : Pool}, p.Minor q → R p q
  trans : ∀ {p q r : Pool}, R p q → R q r → R p r

/-- A pool whose depth is what it was. What has been written down meanwhile is not above that depth,
and the hook keeps its promises. -/
structure ComesBack (p q : Pool) : Prop where
  depth : q.depth = p.depth
  config : q.config = p.config
  checkStyle : q.user.checkStyle = p.user.checkStyle
  hook : ∀ P, p.user.hook.Runs P → q.user.hook.Runs P
  history : p.history <:+ q.history
  deeper : ∀ r ∈ q.recordsSince p, p.depth ≤ r.depth

/-- What a minor change writes down is minor, and at the depth of the pool. -/
theorem Minor.records (h : p.Minor q) {r : Record} (hr : r ∈ q.recordsSince p) :
    r.depth = p.depth ∧ r.entry.isMinor = true := by
  obtain ⟨hook, new, hframe, hnew⟩ := h.parts
  rw [recordsSince_eq (congrArg Frame.history hframe), List.mem_reverse] at hr
  exact hnew r hr

/-- A minor change stays at its depth. -/
theorem Minor.comesBack (h : p.Minor q) : p.ComesBack q := by
  obtain ⟨hook, new, hframe, -⟩ := h.parts
  exact {
    depth := congrArg Frame.depth hframe
    config := congrArg Frame.config hframe
    checkStyle := congrArg Frame.checkStyle hframe
    hook := h.hook
    history := ⟨new, (congrArg Frame.history hframe).symm⟩
    deeper := fun r hr => Nat.le_of_eq (h.records hr).1.symm }

/-- An entry is written down at the depth of the pool, whatever is counted with it. -/
theorem ComesBack.note (p : Pool) (tally : Tally) (e : Entry) :
    p.ComesBack ({ p with tally }.note e) where
  depth := rfl
  config := rfl
  checkStyle := rfl
  hook _ := id
  history := List.suffix_cons _ _
  deeper r hr := by
    have hone : ({ p with tally }.note e).recordsSince p = [_] := recordsSince_cons rfl
    rw [hone, List.mem_singleton] at hr
    exact Nat.le_of_eq (congrArg Record.depth hr).symm

/-- Coming back twice is coming back. -/
theorem ComesBack.trans {r : Pool} (h : p.ComesBack q) (h' : q.ComesBack r) : p.ComesBack r where
  depth := h'.depth.trans h.depth
  config := h'.config.trans h.config
  checkStyle := h'.checkStyle.trans h.checkStyle
  hook P hp := h'.hook P (h.hook P hp)
  history := h.history.trans h'.history
  deeper record hr := by
    rw [recordsSince_trans h.history h'.history, List.mem_append] at hr
    rcases hr with hr | hr
    · exact h.deeper record hr
    · exact h.depth ▸ h'.deeper record hr

instance : Course ComesBack where
  minor := Minor.comesBack
  trans := ComesBack.trans

/-- A pool in which an operation has started. -/
def entered (op : Op) (p : Pool) : Pool := { p.note (.began op) with depth := p.depth + 1 }

/-- A pool in which an operation ends. -/
def left (op : Op) (reply : Reply) (p : Pool) : Pool :=
  { p with depth := p.depth - 1 }.note (.ended op reply)

/-- An operation starts and ends at the depth at which it was asked for, and all that happens inside
of it is deeper. -/
theorem ComesBack.records_left {op : Op} (h : (p.entered op).ComesBack q) (reply : Reply)
    {r : Record} (hr : r ∈ (q.left op reply).recordsSince p) :
    p.depth < r.depth ∨ r.depth = p.depth ∧ (r.entry = .began op ∨ r.entry = .ended op reply) := by
  have hbegan : p.history <:+ (p.entered op).history := List.suffix_cons _ _
  have hended : q.history <:+ (q.left op reply).history := List.suffix_cons _ _
  have hback : q.depth - 1 = p.depth := by
    rw [h.depth]
    exact Nat.add_sub_cancel ..
  have hfirst : (p.entered op).recordsSince p = [_] := recordsSince_cons rfl
  have hlast : (q.left op reply).recordsSince q = [_] := recordsSince_cons rfl
  rw [recordsSince_trans (hbegan.trans h.history) hended, recordsSince_trans hbegan h.history,
    hfirst, hlast, List.mem_append, List.mem_append, List.mem_singleton, List.mem_singleton] at hr
  rcases hr with (rfl | hr) | rfl
  · exact .inr ⟨rfl, .inl rfl⟩
  · exact .inl (h.deeper r hr)
  · exact .inr ⟨hback, .inr rfl⟩

/-- An operation comes back to the depth at which it was entered. -/
theorem ComesBack.left {op : Op} (h : (p.entered op).ComesBack q) (reply : Reply) :
    p.ComesBack (q.left op reply) where
  depth := by
    change q.depth - 1 = p.depth
    rw [h.depth]
    exact Nat.add_sub_cancel ..
  config := h.config
  checkStyle := h.checkStyle
  hook := h.hook
  history := (List.suffix_cons _ _).trans (h.history.trans (List.suffix_cons _ _))
  deeper r hr := by
    rcases h.records_left reply hr with hr | ⟨hr, -⟩
    · exact Nat.le_of_lt hr
    · exact Nat.le_of_eq hr.symm

/-- Nothing is taken for granted, and a pool may change in any way. -/
def anyRun : Discipline where
  valid _ := True
  moves _ _ := True
  refl _ := trivial
  trans _ _ := trivial
  keep _ _ := trivial

end Pool

namespace PoolM

open Pool (Course anyRun)

variable {α β : Type} {m : PoolM α} {f : α → PoolM β} {p q : Pool}

/-- What an action leaves when it ends with a value, and when it panics. -/
abbrev Leaves (m : PoolM α) (p : Pool) (done : α → Pool → Prop) (raised : Pool → Prop) : Prop :=
  Spec anyRun m p done fun _ => raised

/-- An action keeps to a course, also if it panics. -/
def Keeps (R : Pool → Pool → Prop) (m : PoolM α) : Prop := ∀ p, Leaves m p (fun _ => R p) (R p)

/-- What an action leaves holds of the way in which it has ended. -/
theorem Leaves.of_done {done : α → Pool → Prop} {raised : Pool → Prop} (h : Leaves m p done raised)
    {value : α} (hm : m p = (.done value, q)) : done value q := by
  obtain ⟨-, h⟩ := h trivial
  rwa [hm] at h

/-- An action that ends with a value has kept to its course. -/
theorem Keeps.of_done {R : Pool → Pool → Prop} (h : Keeps R m) {value : α}
    (hm : m p = (.done value, q)) : R p q :=
  Leaves.of_done (h p) hm

/-- An action keeps to a course and never panics. -/
def Answers (R : Pool → Pool → Prop) (m : PoolM α) : Prop :=
  ∀ p, Leaves m p (fun _ => R p) fun _ => False

/-- An action that never panics keeps to its course in particular. -/
theorem Answers.keeps {R : Pool → Pool → Prop} (h : Answers R m) : Keeps R m :=
  fun p => Spec.mono (h p) (fun _ _ => id) fun _ _ => False.elim

theorem Answers.mono {R S : Pool → Pool → Prop} (h : Answers R m) (hRS : ∀ {p q}, R p q → S p q) :
    Answers S m :=
  fun p => (h p).mono (fun _ _ => hRS) fun _ _ => id

theorem Keeps.mono {R S : Pool → Pool → Prop} (h : Keeps R m) (hRS : ∀ {p q}, R p q → S p q) :
    Keeps S m :=
  fun p => Spec.mono (h p) (fun _ _ => hRS) fun _ _ => hRS

section Course

variable {R : Pool → Pool → Prop} [Course R]

theorem Keeps.pure (value : α) : Keeps R (Pure.pure value) :=
  fun _ => Spec.pure (Course.minor (.of_frame rfl))

theorem Keeps.raise (panic : Panic) : Keeps R (PoolM.raise panic : PoolM α) :=
  fun _ => Spec.raise (Course.minor (.of_frame rfl))

omit [Course R] in
theorem Keeps.exceed : Keeps R (PoolM.exceed : PoolM α) := fun _ => Spec.exceed

theorem Keeps.read (g : Pool → α) : Keeps R (PoolM.read g) :=
  fun _ => Spec.of_done rfl trivial (Course.minor (.of_frame rfl))

/-- Going on with a value, or raising a panic, changes nothing. -/
theorem Keeps.ofExcept (result : Except Panic α) : Keeps R (PoolM.ofExcept result) := by
  cases result with
  | ok value => exact .pure value
  | error panic => exact .raise panic

/-- What follows a pool on its course follows where the course has started. -/
theorem Leaves.since (h : R p q) (hm : Leaves m q (fun _ => R q) (R q)) :
    Leaves m q (fun _ => R p) (R p) :=
  Spec.mono hm (fun _ _ hr => Course.trans h hr) fun _ _ hr => Course.trans h hr

/-- Actions that keep to a course do so in sequence. -/
theorem Keeps.bind (hm : Keeps R m) (hf : ∀ value, Keeps R (f value)) : Keeps R (m >>= f) :=
  fun p => Spec.bind (hm p) fun value q hq => Leaves.since hq (hf value q)

theorem Keeps.map {g : α → β} (hm : Keeps R m) : Keeps R (g <$> m) := by
  rw [map_eq_pure_bind]
  exact hm.bind fun _ => .pure _

/-- A change of what minor parts may change. -/
theorem Keeps.change {g : Pool → Pool} (h : ∀ p, (g p).frame = p.frame) :
    Keeps R (PoolM.change g) :=
  fun p => Spec.of_done rfl trivial (Course.minor (.of_frame (h p)))

/-- A change outside of the frame keeps to every course. -/
theorem Keeps.update {g : Pool → α × Pool} (h : ∀ p, (g p).2.frame = p.frame) :
    Keeps R (PoolM.update g) :=
  fun p => Spec.of_done rfl trivial (Course.minor (.of_frame (h p)))

/-- A change that writes a minor entry down. -/
theorem Keeps.noteValue {g : Pool → α × Pool}
    (h : ∀ p, ∃ r, (g p).2.frame = { p.frame with history := r :: p.history } ∧
      r.depth = p.depth ∧ r.entry.isMinor = true) : Keeps R (PoolM.update g) := by
  intro p
  obtain ⟨r, hframe, hdepth, hminor⟩ := h p
  exact Spec.of_done rfl trivial (Course.minor (.of_record r hframe hdepth hminor))

/-- Writing down a minor entry keeps to every course. -/
theorem Keeps.note {g : Pool → Pool}
    (h : ∀ p, ∃ r, (g p).frame = { p.frame with history := r :: p.history } ∧
      r.depth = p.depth ∧ r.entry.isMinor = true) : Keeps R (PoolM.change g) :=
  .noteValue (g := fun p => ((), g p)) h

/-- Actions that answer do so in sequence. -/
theorem Answers.bind (hm : Answers R m) (hf : ∀ value, Answers R (f value)) :
    Answers R (m >>= f) :=
  fun p => Spec.bind (hm p) fun value q hq =>
    (hf value q).mono (fun _ _ hr => Course.trans hq hr) fun _ _ => id

/-- What is done about a panic may keep to the course as well. -/
theorem Keeps.onPanic {g : Pool → Pool} (hm : Keeps R m) (hg : Keeps R (PoolM.change g)) :
    Keeps R (PoolM.onPanic g m) :=
  fun p => Spec.onPanic (hm p) fun _ q _ hq =>
    ⟨trivial, Course.trans hq ((hg q).of_done rfl)⟩

/-- The thread does not matter. -/
theorem Keeps.elsewhere (hm : Keeps R m) : Keeps R (PoolM.elsewhere m) := by
  intro p
  have hleft : R p { p with traced := false } := Course.minor (.of_frame rfl)
  have hback {q : Pool} (hq : R { p with traced := false } q) : R p { q with traced := p.traced } :=
    Course.trans hleft (Course.trans hq (Course.minor (.of_frame rfl)))
  refine Spec.elsewhere (fun _ => trivial) ?_ fun _ _ => trivial
  exact (hm { p with traced := false }).mono (fun _ _ => hback) fun _ _ => hback

section Nested

variable {nested : Op → PoolM Reply} (hn : ∀ op, Answers R (nested op))

include hn

/-- User code keeps to a course if the operations that it runs do. -/
theorem answers_runInside (ops : List Op) : Answers R (runInside nested ops) := by
  induction ops with
  | nil => exact fun _ => Spec.pure (Course.minor (.of_frame rfl))
  | cons op ops ih => exact (hn op).bind fun _ => ih

/-- Unwinding is minor, but for what destructors run. -/
theorem answers_unwind (n : Nat) : Answers R (unwind nested n) := by
  induction n with
  | zero => exact fun _ => Spec.pure (Course.minor (.of_frame rfl))
  | succ n ih =>
    have hgive : Answers R (PoolM.update fun p => (p.partingLatest, p.giveBackLatest)) :=
      fun p => Spec.of_done rfl trivial (Course.minor (.giveBackLatest p))
    exact Answers.bind (hgive.bind fun _ => answers_runInside hn _) fun _ => ih

/-- A panic is caught, and none is left. -/
theorem answers_attempt (hm : Keeps R m) : Answers R (attempt nested m) := by
  intro p
  refine (Spec.attempt (fun _ => R p) (hm p) fun _ q hq => ?_).weaken fun result q hq => ?_
  · exact (answers_unwind hn _ q).weaken fun _ r hr => Course.trans hq hr
  · cases result <;> exact hq

/-- Catching a panic keeps to the course of the action. -/
theorem keeps_attempt (hm : Keeps R m) : Keeps R (attempt nested m) := (answers_attempt hn hm).keeps

/-- What an operation does inside keeps to one course, and what it is from outside to another. Its
panic is its answer. -/
theorem answers_answering {S : Pool → Pool → Prop} {body : PoolM Reply} {op : Op}
    (hb : Keeps R body) (hl : ∀ p q reply, R (p.entered op) q → S p (q.left op reply)) :
    Answers S (answering nested op body) :=
  fun p => Spec.change trivial (Spec.bind (answers_attempt hn hb (p.entered op)) fun _ q hq =>
    Spec.change trivial (Spec.pure (hl p q _ hq)))

end Nested

end Course

end PoolM

end LeasePool
