import LeasePool.Demo

/-!
The command line: it prints the demonstration.
-/

/-- Write the demonstration. -/
def main : IO Unit := IO.print LeasePool.Demo.text
