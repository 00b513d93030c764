import SlotHandles.Fault
import SlotHandles.Ty.Stored

/-!
# The control block of a slot

A control block records the occupancy of one slot, the number of shared references to its value and the type of
the value.  A value's life is `empty → constructing → occupied → tearingDown → empty`, with a short cut from
`constructing` back to `empty` for a construction that fails.

Every operation is a transition of the block alone, in the monad `ControlBlock.Op`: it returns a result or reports a
violation, and the block keeps what was written before the report.  Counting is modulo `2 ^ 32`: a reference is
counted first and the previous count is judged afterwards.

All checks are on, as in a debug build.  Without the debug checks `publish` and `abandon` would not be refused on a slot
that was not claimed; a teardown, the counts and the destruction of a slot are checked in every build.
-/

namespace SlotHandles

/-- The state of one slot's control block.  `address` and `capacity` describe its storage. -/
structure ControlBlock where
  state : Occupancy
  count : UInt32
  type : Option StoredType
  address : Nat
  capacity : Nat
  deriving DecidableEq, Repr

namespace ControlBlock

/-- A transition of a control block that may report a violation. -/
abbrev Op := EStateM Violation ControlBlock

def fresh (address capacity : Nat) : ControlBlock := ⟨.empty, 0, none, address, capacity⟩

/-- A value of the given size and alignment has room in the storage. -/
def hasRoom (c : ControlBlock) (size alignment : Nat) : Bool := size ≤ c.capacity && c.address % alignment = 0

/-- The type of the held value, while there is one. -/
def heldType (c : ControlBlock) : Option StoredType := if c.state = .occupied then c.type else none

/-- Some value is being built, is alive or is being destroyed. -/
def isOccupied (c : ControlBlock) : Bool := c.state ≠ .empty

/-- The block in one line: state, held type and count. -/
def summary (c : ControlBlock) : String :=
  let type := match c.heldType with
    | some t => t.name
    | none => "-"
  s!"{c.state.label}:{type}:{c.count.toNat}"

/-- Claim an empty slot for construction; false, and no change, if it is not empty. -/
def tryClaim : Op Bool := do
  let c ← get
  if c.state = .empty then
    set { c with state := .constructing }
    return true
  else
    return false

/-- Publish the value built in a claimed slot, with one reference. -/
def publish (type : StoredType) : Op Unit := do
  let c ← get
  if c.state = .constructing then
    set { c with state := .occupied, count := 1, type := some type }
  else
    throw .finishingUnclaimed

/-- Give a claimed slot back without a value. -/
def abandon : Op Unit := do
  let c ← get
  if c.state = .constructing then
    set { c with state := .empty }
  else
    throw .abandoningUnclaimed

/-- Claim an occupied slot for destruction of its value.  The type is forgotten and handed to the caller. -/
def beginTeardown : Op (Option StoredType) := do
  let c ← get
  if c.state = .occupied then
    set { c with state := .tearingDown, type := none }
    return c.type
  else
    throw (.doubleTeardown c.state)

/-- The value is destroyed: the slot is empty again.  The count stays as it is. -/
def vacate : Op Unit := modify fun c => { c with state := .empty }

def addReference : Op Unit := do
  let c ← get
  set { c with count := c.count + 1 }
  if c.count = 0 then throw .cloningDead
  if c.count = 0xffffffff then throw .countOverflow

/-- Count one shared reference less.  True if it was the last one, so the value is to be torn down. -/
def dropReference : Op Bool := do
  let c ← get
  set { c with count := c.count - 1 }
  if c.count = 0 then throw .countUnderflow
  return c.count = 1

/-- A slot may be destroyed only while it is empty. -/
def destroy : Op Unit := do
  let c ← get
  if c.state ≠ .empty then throw .destroyedWhileOwned

/-!
### What each transition does to a block

One equation for every transition, with its outcome and the block it leaves.
-/

section

variable {α : Type}

private theorem get_bind (f : ControlBlock → Op α) (c : ControlBlock) :
    ((get : Op ControlBlock) >>= f) c = f c c := rfl

private theorem set_bind (d : ControlBlock) (f : PUnit → Op α) (c : ControlBlock) :
    ((set d : Op PUnit) >>= f) c = f ⟨⟩ d := rfl

private theorem map_set (f : PUnit → α) (d c : ControlBlock) : (f <$> (set d : Op PUnit)) c = .ok (f ⟨⟩) d := rfl

private theorem set_apply (d c : ControlBlock) : (set d : Op PUnit) c = .ok ⟨⟩ d := rfl

private theorem pure_apply (a : α) (c : ControlBlock) : (pure a : Op α) c = .ok a c := rfl

private theorem throw_apply (v : Violation) (c : ControlBlock) : (throw v : Op α) c = .error v c := rfl

private theorem map_throw {β : Type} (f : α → β) (v : Violation) (c : ControlBlock) :
    (f <$> (throw v : Op α)) c = .error v c := rfl

end

/-- Claiming succeeds exactly on an empty slot, and otherwise changes nothing. -/
theorem tryClaim_apply (c : ControlBlock) :
    tryClaim c = if c.state = .empty then .ok true { c with state := .constructing } else .ok false c := by
  by_cases h : c.state = .empty <;> simp [tryClaim, get_bind, map_set, pure_apply, h]

theorem publish_apply (t : StoredType) (c : ControlBlock) :
    publish t c =
      if c.state = .constructing then .ok () { c with state := .occupied, count := 1, type := some t }
      else .error .finishingUnclaimed c := by
  by_cases h : c.state = .constructing <;> simp [publish, get_bind, set_apply, throw_apply, h]

theorem abandon_apply (c : ControlBlock) :
    abandon c =
      if c.state = .constructing then .ok () { c with state := .empty } else .error .abandoningUnclaimed c := by
  by_cases h : c.state = .constructing <;> simp [abandon, get_bind, set_apply, throw_apply, h]

/-- Teardown begins exactly on an occupied slot, and forgets the type. -/
theorem beginTeardown_apply (c : ControlBlock) :
    beginTeardown c =
      if c.state = .occupied then .ok c.type { c with state := .tearingDown, type := none }
      else .error (.doubleTeardown c.state) c := by
  by_cases h : c.state = .occupied <;> simp [beginTeardown, get_bind, map_set, throw_apply, h]

theorem vacate_apply (c : ControlBlock) : vacate c = .ok () { c with state := .empty } := rfl

/-- The count goes up by one before it is judged, in the report of a violation too. -/
theorem addReference_apply (c : ControlBlock) :
    addReference c =
      if c.count = 0 then .error .cloningDead { c with count := c.count + 1 }
      else if c.count = 0xffffffff then .error .countOverflow { c with count := c.count + 1 }
      else .ok () { c with count := c.count + 1 } := by
  by_cases h : c.count = 0
  · simp [addReference, get_bind, set_bind, throw_apply, h]
  · by_cases h' : c.count = 0xffffffff <;> simp [addReference, get_bind, set_bind, throw_apply, pure_apply, h, h']

/-- The count goes down by one before it is judged, in the report of a violation too. -/
theorem dropReference_apply (c : ControlBlock) :
    dropReference c =
      if c.count = 0 then .error .countUnderflow { c with count := c.count - 1 }
      else .ok (c.count = 1) { c with count := c.count - 1 } := by
  by_cases h : c.count = 0 <;> simp [dropReference, get_bind, set_bind, map_throw, pure_apply, h]

end ControlBlock

end SlotHandles
