import UnitArith.CommandLine

/-! The command line program. -/

def main (words : List String) : IO Unit := do
  IO.println (UnitArith.CommandLine.answer words)
