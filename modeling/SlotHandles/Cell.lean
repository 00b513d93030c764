/-!
# Cells

A cell is a place of a fixed number of bits that many owners read and write.  Every operation is one step; a
comparison looks at the stored bits and at nothing else.
-/

namespace SlotHandles

structure Cell (w : Nat) where
  bits : BitVec w
  deriving DecidableEq, Repr

namespace Cell

variable {w : Nat}

def read (c : Cell w) : BitVec w := c.bits

def write (_ : Cell w) (value : BitVec w) : Cell w := ⟨value⟩

def exchange (c : Cell w) (value : BitVec w) : BitVec w × Cell w := (c.bits, ⟨value⟩)

/-- The answer of a compare-and-swap: whether it wrote, and what the caller expects from now on. -/
structure Swap (w : Nat) where
  done : Bool
  expected : BitVec w
  deriving DecidableEq, Repr

/-- Write `desired` if the cell holds the bits `expected`; otherwise return what it holds. -/
def compareAndSwap (c : Cell w) (expected desired : BitVec w) : Swap w × Cell w :=
  if c.bits = expected then (⟨true, expected⟩, ⟨desired⟩) else (⟨false, c.bits⟩, c)

@[simp] theorem read_write (c : Cell w) (value : BitVec w) : (c.write value).read = value := rfl

@[simp] theorem read_exchange (c : Cell w) (value : BitVec w) : (c.exchange value).2.read = value := rfl

theorem compareAndSwap_done_iff {c : Cell w} {expected desired : BitVec w} :
    (c.compareAndSwap expected desired).1.done = true ↔ c.read = expected := by
  unfold compareAndSwap read
  split <;> simp_all

theorem read_compareAndSwap (c : Cell w) (expected desired : BitVec w) :
    (c.compareAndSwap expected desired).2.read = if c.read = expected then desired else c.read := by
  unfold compareAndSwap read
  split <;> rfl

/-- After a compare-and-swap the caller expects what the cell held before it. -/
theorem compareAndSwap_expected (c : Cell w) (expected desired : BitVec w) :
    (c.compareAndSwap expected desired).1.expected = c.read := by
  unfold compareAndSwap read
  split <;> simp_all

end Cell

end SlotHandles
