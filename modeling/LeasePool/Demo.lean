import LeasePool.Service.Request

/-!
# A short demonstration

A small service leases one text and gets it back.
-/

namespace LeasePool.Demo

/-- Room for three resources, no background job. -/
def config : Config := Config.withoutKeeper (Config.withCounts 0 0 3 {})

/-- What an acquisition tells. -/
def acquired : Option Reply → List String
  | some (.leased ..) => ["  Got resource: connection"]
  | some (.refused error) => ["  Acquire failed: " ++ error.text]
  | _ => []

/-- What the demonstration shows of a service. -/
def session (s : Service) : List String :=
  let (reply, s) := s.operate (.acquire "connection")
  let (_, s) := s.operate (.drop "connection")
  acquired reply ++ [s!"  Idle after return: {s.pool.status.idle}"]

/-- The lines of the demonstration. -/
def lines : List String :=
  ["=== Esox.Respool v1.0.0 ===", "See demos/ directory for usage examples",
    "Run: cargo run --example basic", "", "Quick Demo:"] ++
  match Service.build? Service.defaultName config UserCode.plain with
  | .ok s => session s
  | .error _ => []

/-- The text of the demonstration. -/
def text : String := "\n".intercalate lines ++ "\n"

end LeasePool.Demo
