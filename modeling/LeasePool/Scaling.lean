import LeasePool.Fault
import LeasePool.Status

/-!
# Load scaling

A load-scaling policy moves the target of a pool up by a step when the share of live resources in
use is above its high watermark, or when an acquisition was refused, and down by a step when that
share is below its low watermark. The moves are computed in 64-bit words that do not wrap, and the
pool clamps every move to its bounds.
-/

namespace LeasePool

/-- The number of a nonempty interval that is nearest to `n`. An empty interval has none, and asking
for one is a panic. -/
def clamp (low high n : Nat) : Except Panic Nat :=
  if low ≤ high then .ok (max low (min n high))
  else .error (.ofText s!"min > max. min = {low}, max = {high}")

/-- The smaller of two watermarks. One that is not a number yields to the other. -/
def lowerMark (a b : Float) : Float :=
  if a.isNaN then b else if b.isNaN then a else if a ≤ b then a else b

/-- The callbacks of a management hook. -/
inductive HookCall
  | acquired
  | released
  | exhausted
  | maintenance
deriving DecidableEq

/-- The name of a callback. -/
def HookCall.name : HookCall → String
  | acquired => "on_acquired"
  | released => "on_released"
  | exhausted => "on_exhausted"
  | maintenance => "on_maintenance"

/-- Which way a target moves. -/
inductive Direction
  | up
  | down
deriving DecidableEq

/-- What the trace says of a move. -/
def Direction.message : Direction → String
  | up => "scaling pool up"
  | down => "scaling pool down"

/-- A load-scaling policy. -/
structure LoadScaling where
  high : Float
  low : Float
  step : Nat := 1

namespace LoadScaling

/-- The policy with the given watermarks; the low one does not exceed the high one. -/
def ofMarks (high low : Float) : LoadScaling := { high, low := lowerMark low high }

/-- The policy that nobody has changed: up above three quarters, down below one quarter. -/
def standard : LoadScaling := ofMarks 0.75 0.25

/-- A step moves the target by one at least. -/
def withStep (step : Nat) (p : LoadScaling) : LoadScaling := { p with step := max step 1 }

/-- The share of live resources that are in use. -/
def load (s : Status) : Float := ratio s.inUse s.live

/-- The requested target after a move, before the pool clamps it. -/
def moved (p : LoadScaling) (d : Direction) (target : Nat) : Nat :=
  match d with
  | .up => min (target + p.step) countLimit
  | .down => target - p.step

/-- The move that a maintenance call asks for. A pool without live resources never moves down. -/
def onMaintenance (p : LoadScaling) (s : Status) : Option Direction :=
  if p.high < load s then some .up
  else if load s < p.low ∧ 0 < s.live then some .down
  else none

/-- The target that a callback asks for, if it asks for one. -/
def request (p : LoadScaling) (call : HookCall) (s : Status) (target : Nat) : Option Nat :=
  match call with
  | .acquired | .released => none
  | .exhausted => some (p.moved .up target)
  | .maintenance => (p.onMaintenance s).map fun d => p.moved d target

/-- The target after a callback under the given status, whose bounds clamp it. -/
def follow (p : LoadScaling) (call : HookCall) (s : Status) (target : Nat) : Except Panic Nat :=
  match p.request call s target with
  | none => .ok target
  | some wanted => clamp s.min s.max wanted

end LoadScaling

end LeasePool
