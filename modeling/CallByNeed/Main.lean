import CallByNeed.Command

set_option autoImplicit false

/-!
The calculator as a program.
-/

def main (args : List String) : IO UInt32 := do
  let outcome := CallByNeed.Command.run args
  IO.print outcome.stdout
  IO.eprint outcome.stderr
  return UInt32.ofNat outcome.exitCode
