import Reckoner.Expression.Failure
import Reckoner.Json.Value
import Reckoner.Number.Radix

/-!
# Reports

The documents in which results are reported, on the command line as well as by the service: the failure of
an expression and an integer in four bases.
-/

namespace Reckoner.Report

set_option autoImplicit false

def failureFields (f : Expression.Failure) : Json.Fields :=
  [("kind", .text f.kind.name), ("message", .text f.message), ("position", .ofNat? f.position?)]

def failure (f : Expression.Failure) : Json.Value :=
  .object (failureFields f)

def bases (b : Radix.Bases) : Json.Value :=
  .object [("hex", .text b.hex), ("dec", .text b.dec), ("oct", .text b.oct), ("bin", .text b.bin)]

def bases? (b : Option Radix.Bases) : Json.Value :=
  (b.map bases).getD .null

end Reckoner.Report
