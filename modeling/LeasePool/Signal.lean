import LeasePool.Fault

/-!
# Job signals

A background job sleeps between its cycles on a signal that others may nudge or stop. A waiting job
looks at the signal again and again: a stop comes first, then a nudge, which the look takes, then
the deadline. A wait whose deadline no clock can show is a panic, whatever the signal says. The
lemmas at the end say what one look does in each case.
-/

namespace LeasePool

/-- The last second that a clock can show. -/
def Instant.lastSecond : Nat := 9223372036854775807

/-- The end of a wait that starts now. A clock has counted a second at least before the first wait,
so it never shows the end of an interval of as many seconds as it can count. -/
def Instant.deadline (now : Instant) (interval : Duration) : Except Panic Instant :=
  if interval.seconds < lastSecond then .ok (now + interval.nanos)
  else .error (.ofText "overflow when adding duration to instant")

/-- A deadline that can be shown is an interval away. -/
theorem Instant.deadline_eq_ok_iff {now time : Instant} {interval : Duration} :
    now.deadline interval = .ok time ↔
      interval.seconds < lastSecond ∧ time = now + interval.nanos := by
  unfold deadline
  split
  · next h => simp only [Except.ok.injEq, h, true_and, eq_comm]
  · next h => simp only [reduceCtorEq, h, false_and]

/-- Why a waiting job woke up. -/
inductive Wake
  | elapsed
  | nudged
  | stopped
deriving DecidableEq

/-- The name of what woke a wait. -/
def Wake.name : Wake → String
  | elapsed => "Elapsed"
  | nudged => "Nudged"
  | stopped => "Stopped"

/-- The flags through which others reach a background job. -/
structure Signal where
  isStopped : Bool := false
  isNudged : Bool := false
deriving DecidableEq, Inhabited

namespace Signal

/-- Ask for a turn now. -/
def nudge (s : Signal) : Signal := { s with isNudged := true }

/-- Ask for the end. -/
def stop (s : Signal) : Signal := { s with isStopped := true }

/-- One look of a waiting job: it wakes up for a reason, or sleeps on. -/
def look (deadline now : Instant) (s : Signal) : Option Wake × Signal :=
  if s.isStopped then (some .stopped, s)
  else if s.isNudged then (some .nudged, { s with isNudged := false })
  else if deadline ≤ now then (some .elapsed, s)
  else (none, s)

/-- A wait during which nobody touches the signal: its first look decides, and a job that sleeps on
wakes up at its deadline. -/
def waitAlone (interval : Duration) (s : Signal) : Except Panic (Wake × Signal) := do
  let deadline ← Instant.deadline 0 interval
  match s.look deadline 0 with
  | (some wake, after) => return (wake, after)
  | (none, after) => return (.elapsed, after)

/-- A stop is what a look finds first. -/
theorem look_of_isStopped {s : Signal} (h : s.isStopped = true) (deadline now : Instant) :
    s.look deadline now = (some .stopped, s) := by
  simp [look, h]

/-- Without a stop, a look finds a nudge and takes it away. -/
theorem look_of_isNudged {s : Signal} (hs : s.isStopped = false) (hn : s.isNudged = true)
    (deadline now : Instant) :
    s.look deadline now = (some .nudged, { s with isNudged := false }) := by
  simp [look, hs, hn]

/-- Without either, a look finds that the deadline is over or nothing. -/
theorem look_of_quiet {s : Signal} (hs : s.isStopped = false) (hn : s.isNudged = false)
    (deadline now : Instant) :
    s.look deadline now = (if deadline ≤ now then some .elapsed else none, s) := by
  unfold look
  simp only [hs, hn, Bool.false_eq_true, if_false]
  split <;> rfl

end Signal

end LeasePool
