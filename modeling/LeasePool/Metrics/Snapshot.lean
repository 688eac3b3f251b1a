import LeasePool.Status
import LeasePool.Metrics.Tally

/-!
# Metrics snapshots

A snapshot joins the counters of a pool with its current status. It is exported as a map of texts,
and as a text exposition of gauges and counters with labels.
-/

namespace LeasePool

/-- The metrics of a pool at one moment. -/
structure Snapshot where
  tally : Tally
  idle : Nat
  inUse : Nat
  maxCount : Nat
  utilization : Float

namespace Snapshot

/-- The metrics of a pool with the given counters and status. -/
def ofStatus (tally : Tally) (s : Status) : Snapshot :=
  { tally, idle := s.idle, inUse := s.inUse, maxCount := s.max, utilization := s.utilization }

/-- The metrics as texts; the utilization has two places. -/
def exported (m : Snapshot) : List (String × String) :=
  Counter.all.map (fun c => (c.name, toString (m.tally.get c).toNat)) ++
    [("idle", toString m.idle), ("in_use", toString m.inUse),
      ("max_count", toString m.maxCount), ("utilization", Decimal.places 2 m.utilization)]

end Snapshot

end LeasePool
