/-!
# Trace records

A trace record is a message with a severity and named fields.
-/

namespace LeasePool

/-- How much a trace record matters. -/
inductive Severity
  | trace
  | debug
  | info
  | warn
  | error
deriving DecidableEq

/-- The name of a severity. -/
def Severity.name : Severity → String
  | trace => "TRACE"
  | debug => "DEBUG"
  | info => "INFO"
  | warn => "WARN"
  | error => "ERROR"

/-- The value of a field of a trace record. -/
inductive FieldValue
  | count (n : Nat)
  | ratio (x : Float)
  | flag (b : Bool)
  | text (s : String)

/-- One record of the trace. -/
structure TraceRecord where
  severity : Severity
  message : String
  fields : List (String × FieldValue)

end LeasePool
