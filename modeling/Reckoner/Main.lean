import Reckoner.Command.Run

/-!
# The command line program

Runs the command that the arguments name, prints its document and ends with its code.
-/

set_option autoImplicit false

def main (arguments : List String) : IO UInt32 := do
  let ending := Reckoner.Command.run arguments
  IO.print ending.output
  match ending.message with
  | some message => IO.eprintln message
  | none => pure ()
  return ending.code.toUInt32
