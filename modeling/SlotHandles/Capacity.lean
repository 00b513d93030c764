import SlotHandles.ControlBlock

/-!
# Slots of known shape

A slot with inline storage has its capacity and alignment fixed in advance.  `SlotShape.admissible` says which
shapes exist, `SlotShape.accepts` which layouts may be placed in a slot of a shape, judged without an address, and
`SlotShape.holding` is the smallest shape for a choice of layouts.
-/

namespace SlotHandles

/-- Capacity and alignment of a slot with inline storage. -/
structure SlotShape where
  capacity : Nat
  alignment : Nat
  deriving DecidableEq, Repr

namespace SlotShape

def defaultAlignment : Nat := 16

/-- There is storage, and the alignment has at most one bit set. -/
def admissible (s : SlotShape) : Bool := 0 < s.capacity && s.alignment &&& (s.alignment - 1) = 0

/-- A value of the layout is small enough, and its alignment divides that of the slot. -/
def accepts (s : SlotShape) (l : Layout) : Bool := l.size ≤ s.capacity && s.alignment % l.alignment = 0

/-- Storage of the shape may start at the address.  An alignment of zero asks for nothing. -/
def permits (s : SlotShape) (address : Nat) : Bool := s.alignment = 0 || address % s.alignment = 0

/-- The shape for any one of the layouts: the largest size and the largest alignment among them. -/
def holding (first : Layout) (rest : List Layout) : SlotShape :=
  rest.foldl (fun s l => ⟨max s.capacity l.size, max s.alignment l.alignment⟩) ⟨first.size, first.alignment⟩

/-- The control block of a fresh slot of the shape whose storage starts at the address. -/
def control (s : SlotShape) (address : Nat) : ControlBlock := .fresh address s.capacity

end SlotShape

end SlotHandles
