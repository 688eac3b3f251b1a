import LeasePool.Metrics.Snapshot
import LeasePool.Decimal.Shortest

/-!
# Text exposition of metrics

Each metric is a family of one sample: a help line, a type line and a value line with labels.
Families are sorted by name, and labels too. Values are doubles: counts are rounded to the nearest
one, and the three count gauges stop at the largest signed 64-bit number.
-/

namespace LeasePool.Exposition

/-- The kinds of a metric. -/
inductive Kind
  | gauge
  | counter
deriving DecidableEq

/-- The name of a kind in the exposition. -/
def Kind.name : Kind → String
  | gauge => "gauge"
  | counter => "counter"

/-- One metric with its value. -/
structure Family where
  name : String
  help : String
  kind : Kind
  value : Float

/-- A count in a signed 64-bit word, the largest one if it does not fit. -/
def signedCount (n : Nat) : Float := Float.ofNat (min n (Nat.pow 2 63 - 1))

/-- The exposed name of a counter. -/
def counterName : Counter → String
  | .created => "resources_created_total"
  | .destroyed => "resources_destroyed_total"
  | .acquired => "acquired_total"
  | .released => "released_total"
  | .exhausted => "exhausted_total"
  | .creationFailures => "creation_failures_total"
  | .healthChecks => "health_checks_total"
  | .healthCheckFailures => "health_check_failures_total"
  | .healthCheckErrors => "health_check_errors_total"
  | .evictions => "evictions_total"

/-- What a counter counts, for its help line. -/
def counterHelp : Counter → String
  | .created => "Resources created"
  | .destroyed => "Resources destroyed"
  | .acquired => "Successful acquisitions"
  | .released => "Released handles"
  | .exhausted => "Acquisitions refused"
  | .creationFailures => "Factory failures"
  | .healthChecks => "Health checks with a verdict"
  | .healthCheckFailures => "Unhealthy verdicts"
  | .healthCheckErrors => "Health checks that failed to run"
  | .evictions => "Resources expired"

/-- Every name of the exposition starts with the name of the exporter. -/
def exposedName (name : String) : String := "respool_" ++ name

/-- The families of a snapshot, sorted by name. -/
def families (m : Snapshot) : List Family :=
  let gauges : List Family :=
    [⟨"resources_idle", "Current idle resources", .gauge, signedCount m.idle⟩,
     ⟨"resources_in_use", "Current resources in use", .gauge, signedCount m.inUse⟩,
     ⟨"resources_max", "Maximum pool capacity", .gauge, signedCount m.maxCount⟩,
     ⟨"utilization", "Pool utilization ratio", .gauge, m.utilization⟩]
  let counters : List Family := Counter.all.map fun c =>
    ⟨counterName c, counterHelp c, .counter, Float.ofNat (m.tally.get c).toNat⟩
  (gauges ++ counters).mergeSort fun a b => decide (a.name ≤ b.name)

/-- A label value with backslashes, line feeds and quotes escaped. -/
def escaped (value : String) : String :=
  String.join (value.toList.map fun
    | '\\' => "\\\\"
    | '\n' => "\\n"
    | '"' => "\\\""
    | c => c.toString)

/-- The labels of a pool: its name, and tags that may replace it, sorted by label name. -/
def labels (pool : String) (tags : List (String × String)) : List (String × String) :=
  let named := if tags.any (·.1 == "pool") then tags else ("pool", pool) :: tags
  named.mergeSort fun a b => decide (a.1 ≤ b.1)

/-- The labels in braces, separated by commas. -/
def labelText (pairs : List (String × String)) : String :=
  "\x7b" ++ ",".intercalate (pairs.map fun (name, value) => name ++ "=\"" ++ escaped value ++ "\"")
    ++ "\x7d"

/-- The three lines of a family. -/
def Family.lines (f : Family) (pairs : List (String × String)) : List String :=
  let name := exposedName f.name
  ["# HELP " ++ name ++ " " ++ f.help,
   "# TYPE " ++ name ++ " " ++ f.kind.name,
   name ++ labelText pairs ++ " " ++ Decimal.shortest f.value]

/-- The lines of the exposition of a pool's metrics. -/
def lines (m : Snapshot) (pool : String) (tags : List (String × String)) : List String :=
  (families m).flatMap fun f => f.lines (labels pool tags)

end LeasePool.Exposition
