import Reckoner.Number.Literal

/-!
# Where the service listens

The number of the socket is taken from the first of two variables that is set to something, or else it is
5001.
-/

namespace Reckoner.Service.Listener

set_option autoImplicit false

def fallback : String := "5001"

/-- The first of two variables that is set and not empty, else the fallback. -/
def numberText (first second : Option String) : String :=
  match first.filter (· != "") with
  | some text => text
  | none => (second.filter (· != "")).getD fallback

def message (text : String) : String :=
  "Invalid port '" ++ text ++ "'. Set SCANCAL_PORT to a number."

/-- The number that the variables choose, or a message. -/
def choose (first second : Option String) : Except String Int :=
  match Literal.int? (numberText first second).toList with
  | some number => .ok number
  | none => .error (message (numberText first second))

end Reckoner.Service.Listener
