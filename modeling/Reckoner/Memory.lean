import Reckoner.Number.Double

/-!
# The memory register

The register holds a number and knows whether anything was stored. Adding and subtracting work on the
number held, which is zero in an empty register, and count as storing.
-/

namespace Reckoner

set_option autoImplicit false

structure Memory where
  value : Float := 0
  hasValue : Bool := false
  deriving DecidableEq, Repr

namespace Memory

def empty : Memory := {}

def store (_m : Memory) (x : Float) : Memory := ⟨x, true⟩

def add (m : Memory) (x : Float) : Memory := m.store (m.value + x)

def subtract (m : Memory) (x : Float) : Memory := m.store (m.value - x)

def stored? (m : Memory) : Option Float :=
  if m.hasValue then some m.value else none

end Memory

end Reckoner
