import LeasePool.Signal
import Mathlib.Data.List.Infix

/-!
# Wake-ups of a waiting job

A job waits on its signal, one wait after another, while others nudge and stop it. A nudge or a stop
first sets its flag, and later rouses the job in a step of its own. The job looks at the flags, and
if it finds nothing it sleeps for an increment at most. The flags are only touched under a lock, so
the steps of all parties come one at a time, but in any order, and a sleep can end at any time. In
every such order each wait ends for the right reason, and none sleeps through what it should hear.
-/

namespace LeasePool

/-- A wait that is under way. -/
structure Wait where
  deadline : Instant
  /-- How long it sleeps at most between two looks. -/
  increment : Duration
  /-- Until when it sleeps, unless it is roused. A wait that is awake is about to look. -/
  sleepsUntil : Option Instant := none
deriving DecidableEq

namespace Wait

/-- Whether a wait sleeps, and does not look. -/
def isAsleep (wait : Wait) : Bool := wait.sleepsUntil.isSome

/-- The wait, about to look again. -/
def roused (wait : Wait) : Wait := { wait with sleepsUntil := none }

/-- Sleep until the deadline, but no longer than an increment. -/
def sleeping (now : Instant) (wait : Wait) : Wait :=
  { wait with sleepsUntil := some (now + min (wait.deadline - now) wait.increment.nanos) }

/-- A nap never lasts beyond the deadline. -/
theorem nap_le {now deadline increment : Nat} (h : now < deadline) :
    now + min (deadline - now) increment ≤ deadline := by
  omega

end Wait

/-- What others and the job see of a signal. -/
inductive Happening
  | nudged
  | stopped
  | began (time : Instant) (interval : Duration)
  | returned (wake : Wake) (time : Instant)
deriving DecidableEq

namespace Happening

/-- Whether a nudge came after the last wait that returned for one, the latest first. -/
def unread : List Happening → Bool
  | [] => false
  | nudged :: _ => true
  | returned .nudged _ :: _ => false
  | _ :: earlier => unread earlier

/-- The deadline of the wait that is under way. -/
def deadline? : List Happening → Option Instant
  | [] => none
  | began time interval :: _ => some (time + interval.nanos)
  | returned _ _ :: _ => none
  | _ :: earlier => deadline? earlier

/-- Whether a wait ends here. -/
def isReturn : Happening → Bool
  | returned .. => true
  | _ => false

/-- A wait that returns at some time, after what happened earlier, does so for the right reason. -/
structure Ends (wake : Wake) (time : Instant) (earlier : List Happening) : Prop where
  stopped : wake = .stopped ↔ Happening.stopped ∈ earlier
  nudged : wake = .nudged ↔ Happening.stopped ∉ earlier ∧ unread earlier = true
  elapsed : wake = .elapsed ↔ Happening.stopped ∉ earlier ∧ unread earlier = false
  deadline : ∃ deadline, deadline? earlier = some deadline ∧ (wake = .elapsed → deadline ≤ time)

end Happening

/-- A step of one of the parties. -/
inductive Act
  | pass (time : Duration)
  | nudge
  | stop
  /-- One of the nudges and stops that have set their flag rouses the job. -/
  | rouse
  | begin (interval increment : Duration)
  /-- A sleep ends of itself, when its time has come or before that. -/
  | wakeUp
  | look

/-- The steps in which a wait comes to hear what is pending: it is roused, if it sleeps, and then
looks. -/
def Wait.due (wait : Wait) : List Act := if wait.isAsleep then [.rouse, .look] else [.look]

/-- A signal with the job that waits on it, and all that has happened to it, the latest first. -/
structure Watch where
  now : Instant := 0
  signal : Signal := {}
  wait : Option Wait := none
  /-- The nudges and stops that have set their flag and are still to rouse the job. -/
  rousing : Nat := 0
  log : List Happening := []
deriving DecidableEq

namespace Watch

open Happening

/-- Something is to be heard. -/
def isPending (w : Watch) : Bool := w.signal.isStopped || w.signal.isNudged

/-- A wait starts, if none is under way and a clock can show its deadline. -/
def start (interval increment : Duration) (w : Watch) : Watch :=
  match w.wait, w.now.deadline interval with
  | none, .ok deadline =>
    { w with wait := some { deadline, increment }, log := began w.now interval :: w.log }
  | _, _ => w

/-- The wait that was under way returns, and leaves the signal as it is then. -/
def ended (wake : Wake) (signal : Signal) (w : Watch) : Watch :=
  { w with signal, wait := none, log := returned wake w.now :: w.log }

/-- The job looks at the flags, if it is awake, and returns or goes to sleep. -/
def look (w : Watch) : Watch :=
  match w.wait with
  | none => w
  | some wait =>
    if wait.isAsleep then w
    else
      match w.signal.look wait.deadline w.now with
      | (some wake, signal) => w.ended wake signal
      | (none, signal) => { w with signal, wait := some (wait.sleeping w.now) }

/-- What a step does. A step that is not possible does nothing. -/
def step (w : Watch) : Act → Watch
  | .pass time => { w with now := w.now + time.nanos }
  | .nudge =>
    { w with signal := w.signal.nudge, rousing := w.rousing + 1, log := nudged :: w.log }
  | .stop => { w with signal := w.signal.stop, rousing := w.rousing + 1, log := stopped :: w.log }
  | .rouse =>
    if w.rousing = 0 then w
    else { w with wait := w.wait.map Wait.roused, rousing := w.rousing - 1 }
  | .begin interval increment => w.start interval increment
  | .wakeUp => { w with wait := w.wait.map Wait.roused }
  | .look => w.look

/-- Let the acts happen one after the other. -/
def run (w : Watch) (acts : List Act) : Watch := acts.foldl step w

/-- The flags, the wait and its sleep agree with what has happened. -/
structure IsHeeded (w : Watch) : Prop where
  stopped : w.signal.isStopped = true ↔ Happening.stopped ∈ w.log
  nudged : w.signal.isNudged = unread w.log
  deadline : w.wait.map (·.deadline) = deadline? w.log
  roused : ∀ wait, w.wait = some wait → wait.isAsleep = true → w.isPending = true → 0 < w.rousing
  naps : ∀ wait time, w.wait = some wait → wait.sleepsUntil = some time → time ≤ wait.deadline
  endings : ∀ wake time earlier, returned wake time :: earlier <:+ w.log → Ends wake time earlier

/-- No wait has returned between two states, and what was to be heard is still to be heard. -/
structure GoesOn (w u : Watch) : Prop where
  log : ∃ newer, u.log = newer ++ w.log ∧ ∀ h ∈ newer, h.isReturn = false
  pending : w.isPending = true → u.isPending = true

/-- Steps in which the wait that is under way returns for what is pending. -/
structure Answers (w : Watch) (acts : List Act) (wake : Wake) : Prop where
  before : ∃ before after, acts = before ++ .look :: after ∧ w.GoesOn (w.run before) ∧
    (w.run before).look.wait = none ∧
    (w.run before).look.log = returned wake (w.run before).now :: (w.run before).log
  ne_elapsed : wake ≠ .elapsed
  eq_stopped : Happening.stopped ∈ w.log → wake = .stopped

/-- The waits of a job lose no wake-up. A wait begins whenever none is under way and a clock can
show its deadline, each nudge is for one wait at most, and a wait under way returns for what is
pending as soon as it has been roused and has looked. -/
structure LosesNone (w : Watch) : Prop extends w.IsHeeded where
  begins : ∀ interval increment deadline, w.wait = none →
    w.now.deadline interval = .ok deadline →
      (w.step (.begin interval increment)).wait = some { deadline, increment } ∧
      (w.step (.begin interval increment)).log = began w.now interval :: w.log
  once : ∀ later between earlier time time',
    w.log = later ++ returned .nudged time' :: (between ++ returned .nudged time :: earlier) →
      Happening.nudged ∈ between
  answered : ∀ wait acts, w.wait = some wait → w.isPending = true → wait.due.Sublist acts →
    ∃ wake, w.Answers acts wake

variable {w u v : Watch} {wait : Wait} {acts : List Act}

/-- Nothing is to be heard if neither flag is set. -/
theorem isPending_eq_false_iff :
    w.isPending = false ↔ w.signal.isStopped = false ∧ w.signal.isNudged = false :=
  Bool.or_eq_false_iff

/-- A job that sleeps does not look. -/
theorem look_of_asleep (hw : w.wait = some wait) (ha : wait.isAsleep = true) : w.look = w := by
  simp only [look, hw, ha, if_true]

/-- A look of a job that is awake ends the wait, unless nothing is to be heard before the deadline.
-/
theorem look_cases (hw : w.wait = some wait) (ha : wait.isAsleep = false) :
    w.signal.isStopped = true ∧ w.look = w.ended .stopped w.signal ∨
    w.signal.isStopped = false ∧ w.signal.isNudged = true ∧
      w.look = w.ended .nudged { w.signal with isNudged := false } ∨
    w.isPending = false ∧ wait.deadline ≤ w.now ∧ w.look = w.ended .elapsed w.signal ∨
    w.isPending = false ∧ w.now < wait.deadline ∧
      w.look = { w with wait := some (wait.sleeping w.now) } := by
  have hlook : w.look = match w.signal.look wait.deadline w.now with
      | (some wake, signal) => w.ended wake signal
      | (none, signal) => { w with signal, wait := some (wait.sleeping w.now) } := by
    simp only [look, hw, ha, Bool.false_eq_true, if_false]
  rw [hlook]
  cases hs : w.signal.isStopped with
  | true => simp [Signal.look_of_isStopped hs]
  | false =>
    cases hn : w.signal.isNudged with
    | true => simp [Signal.look_of_isNudged hs hn]
    | false =>
      rw [Signal.look_of_quiet hs hn]
      by_cases hd : wait.deadline ≤ w.now
      · simp [isPending, hs, hn, hd]
      · simp [isPending, hs, hn, hd, Nat.lt_of_not_le hd]

/-- A new happening that is no return leaves all endings as they are. -/
theorem IsHeeded.endings_cons (h : w.IsHeeded) {happening : Happening}
    (hh : happening.isReturn = false) :
    ∀ wake time earlier, returned wake time :: earlier <:+ happening :: w.log →
      Ends wake time earlier := by
  intro wake time earlier hsuffix
  rcases List.suffix_cons_iff.1 hsuffix with heq | hsuffix
  · cases heq
    cases hh
  · exact h.endings wake time earlier hsuffix

/-- Rousing a wait keeps the flags in agreement with what has happened. -/
theorem IsHeeded.of_roused (h : w.IsHeeded) (hu : u = { w with
    wait := w.wait.map Wait.roused, rousing := u.rousing }) : u.IsHeeded := by
  rw [hu]
  refine ⟨h.stopped, h.nudged, ?_, ?_, ?_, h.endings⟩
  · rw [← h.deadline, Option.map_map]
    rfl
  · intro wait hw ha
    obtain ⟨before, -, rfl⟩ := Option.map_eq_some_iff.1 hw
    cases ha
  · intro wait time hw ht
    obtain ⟨before, -, rfl⟩ := Option.map_eq_some_iff.1 hw
    cases ht

/-- Starting a wait keeps the flags in agreement with what has happened. -/
theorem IsHeeded.start (h : w.IsHeeded) (interval increment : Duration) :
    (w.start interval increment).IsHeeded := by
  unfold Watch.start
  split
  · next deadline hw hd =>
    obtain ⟨-, rfl⟩ := Instant.deadline_eq_ok_iff.1 hd
    refine ⟨?_, h.nudged, rfl, ?_, ?_, h.endings_cons rfl⟩
    · rw [h.stopped, List.mem_cons]
      simp
    · intro wait hw ha
      cases hw
      cases ha
    · intro wait time hw ht
      cases hw
      cases ht
  · exact h

/-- A wait that ends for the right reason leaves nothing behind. -/
theorem IsHeeded.ended (h : w.IsHeeded) {wake : Wake} {signal : Signal}
    (hs : signal.isStopped = w.signal.isStopped)
    (hn : signal.isNudged = unread (returned wake w.now :: w.log))
    (he : Ends wake w.now w.log) : (w.ended wake signal).IsHeeded := by
  refine ⟨?_, hn, rfl, fun _ hw => ?_, fun _ _ hw => ?_, ?_⟩
  · change signal.isStopped = true ↔ _ ∈ _ :: w.log
    rw [hs, h.stopped, List.mem_cons]
    simp
  · cases hw
  · cases hw
  · intro wake' time earlier hsuffix
    rcases List.suffix_cons_iff.1 hsuffix with heq | hsuffix
    · obtain ⟨⟨rfl, rfl⟩, rfl⟩ : (wake' = wake ∧ time = w.now) ∧ earlier = w.log := by
        simpa using heq
      exact he
    · exact h.endings wake' time earlier hsuffix

/-- A look keeps the flags in agreement with what has happened. -/
theorem IsHeeded.look (h : w.IsHeeded) : w.look.IsHeeded := by
  cases hw : w.wait with
  | none =>
    rw [Watch.look, hw]
    exact h
  | some wait =>
    cases ha : wait.isAsleep with
    | true =>
      rw [look_of_asleep hw ha]
      exact h
    | false =>
      have hdeadline : deadline? w.log = some wait.deadline := by
        rw [← h.deadline, hw]
        rfl
      have hstopped := h.stopped
      have hnudged := h.nudged
      rcases look_cases hw ha with
        ⟨hs, hlook⟩ | ⟨hs, hn, hlook⟩ | ⟨hp, hle, hlook⟩ | ⟨hp, hlt, hlook⟩
      · rw [hlook]
        refine h.ended rfl h.nudged ⟨?_, ?_, ?_, wait.deadline, hdeadline, ?_⟩
        all_goals simp_all
      · rw [hlook]
        refine h.ended rfl rfl ⟨?_, ?_, ?_, wait.deadline, hdeadline, ?_⟩
        all_goals simp_all
      · rw [hlook]
        obtain ⟨hs, hn⟩ := isPending_eq_false_iff.1 hp
        refine h.ended rfl h.nudged ⟨?_, ?_, ?_, wait.deadline, hdeadline, fun _ => hle⟩
        all_goals simp_all
      · rw [hlook]
        refine ⟨h.stopped, h.nudged, hdeadline.symm, ?_, ?_, h.endings⟩
        · intro _ _ _ hpending
          exact absurd (hp.symm.trans hpending) Bool.false_ne_true
        · intro wait' time hw' ht
          obtain rfl := Option.some.inj hw'
          obtain rfl := Option.some.inj ht
          exact Wait.nap_le hlt

/-- Every step keeps the flags, the wait and its sleep in agreement with what has happened. -/
theorem IsHeeded.step (h : w.IsHeeded) (act : Act) : (w.step act).IsHeeded := by
  cases act with
  | pass time => exact ⟨h.stopped, h.nudged, h.deadline, h.roused, h.naps, h.endings⟩
  | nudge =>
    refine ⟨?_, rfl, h.deadline, fun _ _ _ _ => Nat.succ_pos _, h.naps, h.endings_cons rfl⟩
    change w.signal.isStopped = true ↔ _ ∈ _ :: w.log
    rw [h.stopped, List.mem_cons]
    simp
  | stop =>
    refine ⟨?_, h.nudged, h.deadline, fun _ _ _ _ => Nat.succ_pos _, h.naps, h.endings_cons rfl⟩
    exact iff_of_true rfl List.mem_cons_self
  | rouse =>
    simp only [Watch.step]
    split
    · exact h
    · exact h.of_roused rfl
  | begin interval increment => exact h.start interval increment
  | wakeUp => exact h.of_roused rfl
  | look => exact h.look

/-- The flags agree with what has happened after any acts. -/
theorem isHeeded_run (h : w.IsHeeded) (acts : List Act) : (w.run acts).IsHeeded := by
  induction acts generalizing w with
  | nil => exact h
  | cons act acts ih => exact ih (h.step act)

theorem isHeeded_new (now : Instant) : ({ now } : Watch).IsHeeded where
  stopped := by simp
  nudged := rfl
  deadline := rfl
  roused _ hw := by cases hw
  naps _ _ hw := by cases hw
  endings wake time earlier h := by simp at h

theorem GoesOn.refl (w : Watch) : w.GoesOn w := ⟨⟨[], rfl, by simp⟩, id⟩

/-- What is to be heard through one stretch and the next is so through both. -/
theorem GoesOn.trans (h : w.GoesOn u) (h' : u.GoesOn v) : w.GoesOn v := by
  obtain ⟨⟨newer, hlog, hn⟩, hp⟩ := h
  obtain ⟨⟨newest, hlog', hn'⟩, hp'⟩ := h'
  refine ⟨⟨newest ++ newer, ?_, ?_⟩, hp' ∘ hp⟩
  · rw [hlog', hlog, List.append_assoc]
  · intro h hmem
    rcases List.mem_append.1 hmem with hmem | hmem
    · exact hn' h hmem
    · exact hn h hmem

theorem GoesOn.of_eq (hl : u.log = w.log) (hs : u.signal = w.signal) : w.GoesOn u := by
  refine ⟨⟨[], hl, by simp⟩, fun hp => ?_⟩
  unfold isPending
  rwa [hs]

theorem due_of_ne {act : Act} (hd : wait.due.Sublist (act :: acts)) (hr : act ≠ .rouse)
    (hl : act ≠ .look) : wait.due.Sublist acts := by
  unfold Wait.due at *
  split
  · next ha =>
    rw [if_pos ha] at hd
    exact hd.of_cons_of_ne hr.symm
  · next ha =>
    rw [if_neg ha] at hd
    exact hd.of_cons_of_ne hl.symm

/-- Once it is awake, a wait only has to look. -/
theorem due_roused (hd : wait.due.Sublist acts) : wait.roused.due.Sublist acts := by
  have hlook : wait.roused.due = [.look] := rfl
  rw [hlook]
  unfold Wait.due at hd
  split at hd
  · exact (List.sublist_cons_self ..).trans hd
  · exact hd

/-- A wait that has something to hear goes on with what it needs to hear it, until it looks. -/
theorem IsHeeded.goesOn (h : w.IsHeeded) (hw : w.wait = some wait) (hp : w.isPending = true)
    {act : Act} (hd : wait.due.Sublist (act :: acts)) :
    (act = .look ∧ wait.isAsleep = false) ∨
      w.GoesOn (w.step act) ∧ ∃ wait', (w.step act).wait = some wait' ∧ wait'.due.Sublist acts := by
  cases act with
  | pass time => exact .inr ⟨.of_eq rfl rfl, wait, hw, due_of_ne hd nofun nofun⟩
  | nudge =>
    refine .inr ⟨⟨⟨[Happening.nudged], rfl, by simp [isReturn]⟩, fun _ => ?_⟩, wait, hw,
      due_of_ne hd nofun nofun⟩
    exact Bool.or_true _
  | stop =>
    exact .inr ⟨⟨⟨[Happening.stopped], rfl, by simp [isReturn]⟩, fun _ => rfl⟩, wait, hw,
      due_of_ne hd nofun nofun⟩
  | rouse =>
    cases ha : wait.isAsleep with
    | false =>
      have hlook : [Act.look].Sublist acts := by
        rw [Wait.due, ha] at hd
        exact hd.of_cons_of_ne (by simp)
      refine .inr ?_
      simp only [Watch.step]
      split
      · exact ⟨.refl w, wait, hw, by rwa [Wait.due, ha]⟩
      · exact ⟨.of_eq rfl rfl, wait.roused, congrArg (Option.map Wait.roused) hw, hlook⟩
    | true =>
      have hrousing : w.rousing ≠ 0 := Nat.ne_of_gt (h.roused wait hw ha hp)
      have hlook : [Act.look].Sublist acts := by
        rw [Wait.due, ha] at hd
        exact List.cons_sublist_cons.1 hd
      refine .inr ?_
      simp only [Watch.step, if_neg hrousing]
      exact ⟨.of_eq rfl rfl, wait.roused, congrArg (Option.map Wait.roused) hw, hlook⟩
  | begin interval increment =>
    have hstart : w.step (.begin interval increment) = w := by
      simp [Watch.step, Watch.start, hw]
    rw [hstart]
    exact .inr ⟨.refl w, wait, hw, due_of_ne hd nofun nofun⟩
  | wakeUp =>
    refine .inr ⟨.of_eq rfl rfl, wait.roused, ?_, due_roused (due_of_ne hd nofun nofun)⟩
    exact congrArg (Option.map Wait.roused) hw
  | look =>
    cases ha : wait.isAsleep with
    | false => exact .inl ⟨rfl, rfl⟩
    | true =>
      have hlook : w.step .look = w := look_of_asleep hw ha
      rw [Wait.due, ha] at hd
      rw [hlook]
      refine .inr ⟨.refl w, wait, hw, ?_⟩
      rw [Wait.due, ha]
      exact hd.of_cons_of_ne (by simp)

/-- The look of a wait that is awake, and has something to hear, is the last one. -/
theorem IsHeeded.answers_look (h : w.IsHeeded) (hw : w.wait = some wait)
    (ha : wait.isAsleep = false) (hp : w.isPending = true) (acts : List Act) :
    ∃ wake, w.Answers (.look :: acts) wake := by
  rcases look_cases hw ha with ⟨-, hlook⟩ | ⟨hs, -, hlook⟩ | ⟨hnot, -⟩ | ⟨hnot, -⟩
  · refine ⟨.stopped, ⟨[], acts, rfl, .refl w, ?_⟩, nofun, fun _ => rfl⟩
    change w.look.wait = none ∧ w.look.log = _
    rw [hlook]
    exact ⟨rfl, rfl⟩
  · refine ⟨.nudged, ⟨[], acts, rfl, .refl w, ?_⟩, nofun, fun hmem => ?_⟩
    · change w.look.wait = none ∧ w.look.log = _
      rw [hlook]
      exact ⟨rfl, rfl⟩
    · rw [h.stopped.2 hmem] at hs
      cases hs
  · exact absurd (hnot.symm.trans hp) Bool.false_ne_true
  · exact absurd (hnot.symm.trans hp) Bool.false_ne_true

/-- An act through which a wait goes on does not delay its answer. -/
theorem Answers.of_goesOn {act : Act} {wake : Wake} (hgo : w.GoesOn (w.step act))
    (h : (w.step act).Answers acts wake) : w.Answers (act :: acts) wake := by
  obtain ⟨before, after, rfl, hbefore, hends⟩ := h.before
  refine ⟨⟨act :: before, after, rfl, hgo.trans hbefore, hends⟩, h.ne_elapsed, fun hmem => ?_⟩
  obtain ⟨newer, hlog, -⟩ := hgo.log
  refine h.eq_stopped ?_
  rw [hlog]
  exact List.mem_append_right newer hmem

/-- What is pending is heard once the wait has been roused and has looked, whatever else happens. -/
theorem IsHeeded.answered (h : w.IsHeeded) (hw : w.wait = some wait) (hp : w.isPending = true)
    (hd : wait.due.Sublist acts) : ∃ wake, w.Answers acts wake := by
  induction acts generalizing w wait with
  | nil =>
    have hnil : wait.due = [] := List.sublist_nil.1 hd
    unfold Wait.due at hnil
    split at hnil <;> cases hnil
  | cons act acts ih =>
    rcases h.goesOn hw hp hd with ⟨rfl, ha⟩ | ⟨hgo, wait', hw', hd'⟩
    · exact h.answers_look hw ha hp acts
    · obtain ⟨wake, hanswers⟩ := ih (h.step act) hw' (hgo.pending hp) hd'
      exact ⟨wake, .of_goesOn hgo hanswers⟩

/-- What is unread after a wait has returned for a nudge came after that wait. -/
theorem nudged_mem_of_unread {between earlier : List Happening} {time : Instant}
    (h : unread (between ++ returned .nudged time :: earlier) = true) :
    Happening.nudged ∈ between := by
  induction between with
  | nil => cases h
  | cons happening between ih =>
    cases happening with
    | nudged => exact List.mem_cons_self
    | stopped => exact List.mem_cons_of_mem _ (ih h)
    | began => exact List.mem_cons_of_mem _ (ih h)
    | returned wake time' =>
      cases wake with
      | nudged => cases h
      | elapsed => exact List.mem_cons_of_mem _ (ih h)
      | stopped => exact List.mem_cons_of_mem _ (ih h)

/-- In whatever order nudges and stops come between the steps of one wait after another: a wait
returns for a stop if and only if one came at all, else for a nudge if and only if one came after
the last wait that returned for one, and else only when its deadline has passed. A wait that has
something to hear is awake or about to be roused, and hears it at its next look. -/
theorem no_wakeup_lost (now : Instant) (acts : List Act) :
    (({ now } : Watch).run acts).LosesNone := by
  have h := isHeeded_run (isHeeded_new now) acts
  refine ⟨h, ?_, ?_, ?_⟩
  · intro interval increment deadline hw hd
    simp only [step, start, hw, hd, and_self]
  · intro later between earlier time time' hlog
    have hsuffix : returned .nudged time' :: (between ++ returned .nudged time :: earlier) <:+
        (({ now } : Watch).run acts).log := by
      rw [hlog]
      exact List.suffix_append ..
    have hends := h.endings _ _ _ hsuffix
    exact nudged_mem_of_unread (hends.nudged.1 rfl).2
  · intro wait acts' hw hp hd
    exact h.answered hw hp hd

/-- A nudge that comes at the deadline is heard before it, and only once. The stop that comes while
the next wait sleeps ends it, although it is roused for the nudge. -/
example :
    (({} : Watch).run [.begin ⟨10⟩ ⟨4⟩, .look, .pass ⟨10⟩, .nudge, .wakeUp, .look,
      .begin ⟨5⟩ ⟨9⟩, .look, .stop, .rouse, .look]).log =
      [.returned .stopped 10, .stopped, .began 10 ⟨5⟩, .returned .nudged 10, .nudged,
        .began 0 ⟨10⟩] := by
  decide

/-- A wait that nobody disturbs is one whose job looks at once, and once more after a sleep of the
whole interval. -/
theorem run_of_waitAlone {signal after : Signal} {interval : Duration} {wake : Wake}
    (h : signal.waitAlone interval = .ok (wake, after)) (increment : Duration) :
    ∃ time, ({ signal } : Watch).run
        [.begin interval increment, .look, .pass interval, .wakeUp, .look] =
      { now := interval.nanos, signal := after,
        log := [.returned wake time, .began 0 interval] } := by
  unfold Signal.waitAlone at h
  cases hd : Instant.deadline 0 interval with
  | error panic =>
    rw [hd] at h
    cases h
  | ok deadline =>
    obtain ⟨-, rfl⟩ := Instant.deadline_eq_ok_iff.1 hd
    rw [hd] at h
    change (match signal.look (0 + interval.nanos) 0 with
      | (some wake, after) => Except.ok (wake, after)
      | (none, after) => .ok (.elapsed, after)) = .ok (wake, after) at h
    simp only [run, List.foldl_cons, List.foldl_nil, step, start, hd]
    rcases signal with ⟨_ | _, _ | _⟩
    · by_cases hz : interval.nanos = 0
      · simp_all [look, Signal.look, ended, Wait.isAsleep]
      · simp_all [look, Signal.look, ended, Wait.isAsleep, Wait.roused, Wait.sleeping]
        obtain ⟨rfl, rfl⟩ := h
        exact ⟨_, rfl⟩
    all_goals simp_all [look, Signal.look, ended, Wait.isAsleep]

end Watch

end LeasePool
