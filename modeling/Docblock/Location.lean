/-!
# Locations

Where something stands: zero-based lines, and columns counted in bytes.
-/

set_option autoImplicit false

namespace Docblock

structure Position where
  line : Nat
  column : Nat
  deriving DecidableEq, Repr

structure Location where
  start : Position
  stop : Position
  deriving DecidableEq, Repr

namespace Location

def origin : Location :=
  ⟨⟨0, 0⟩, ⟨0, 0⟩⟩

/-- The whole lines from `first` to `last`, the last of which is `lastSize` bytes long. -/
def ofLines (first last lastSize : Nat) : Location :=
  ⟨⟨first, 0⟩, ⟨last, lastSize⟩⟩

def down (location : Location) (count : Nat) : Location :=
  ⟨⟨location.start.line + count, location.start.column⟩,
   ⟨location.stop.line + count, location.stop.column⟩⟩

end Location

end Docblock
