/-!
# Error codes

Placing a value in a slot can fail in two recoverable ways.  A code is one byte; the two named codes have a text
of their own, every other byte (the zero of "no error" included) reads `unknown error`.
-/

namespace SlotHandles

/-- A recoverable failure to place a value, as one byte. -/
structure ErrorCode where
  code : UInt8
  deriving DecidableEq, Repr

namespace ErrorCode

/-- The byte that stands for the absence of an error. -/
def none : ErrorCode := ⟨0⟩

/-- The slot already holds a value, or one is being built or destroyed in it. -/
def slotOccupied : ErrorCode := ⟨1⟩

/-- The value is too large for the storage, or the storage is not aligned for it. -/
def capacityExceeded : ErrorCode := ⟨2⟩

def text (e : ErrorCode) : String :=
  if e = slotOccupied then "slot occupied"
  else if e = capacityExceeded then "capacity exceeded"
  else "unknown error"

end ErrorCode

end SlotHandles
