import SlotHandles.Session.Making

/-!
# Slots in a session

The steps that use a slot without a handle: looking at it, destroying it, calling its control block, building a
value that nobody owns, and looking at the stored value.
-/

namespace SlotHandles

namespace Run

def inspectSlot (s : SlotId) : Run Reply := do
  requireSlot s
  let c ← act (controlNow s)
  return .slot c.isOccupied c.capacity

/-- Destroy a slot, which has to be empty. -/
def destroySlot (s : SlotId) : Run Reply := do
  requireSlot s
  require (!s.isStatic) .badInput
  act (onControl s ControlBlock.destroy)
  modify fun st => { st with world.slots := st.world.slots.remove s }
  return .null

/-- Finish the occupation of a slot with a number, whatever the storage holds. -/
def finishWithNumber (s : SlotId) : Act Unit := do
  onControl s (ControlBlock.publish (.single .int))
  writeObject (.slot s) ((← get).objectAs (.slot s) (.single .int))

def callControl (s : SlotId) (c : ControlCall) : Run Reply := do
  requireSlot s
  match c with
  | .tryClaim => return .bool (← act (onControl s ControlBlock.tryClaim))
  | .publish =>
    act (finishWithNumber s)
    return .null
  | .abandon =>
    act (onControl s ControlBlock.abandon)
    return .null
  | .teardown =>
    act (tearDown s)
    return .null
  | .addReference =>
    act (onControl s ControlBlock.addReference)
    return .number ((← world).countOf s)
  | .dropReference =>
    if ← act (onControl s ControlBlock.dropReference) then act (tearDown s)
    return .number ((← world).countOf s)
  | .poke count =>
    act (onControl s (modify fun c => { c with count := count }))
    return .number ((← world).countOf s)

/-- Build a value in a slot without a handle.  The last error is only overwritten by a failure. -/
def placeIn (s : SlotId) (seed : Seed) (via : Via) : Run Reply := do
  requireSlot s
  let origin ← originOf seed via
  match ← act (placeValue s origin) with
  | .error e =>
    modify fun st => { st with lastError := e }
    return .placed none e (← argumentShown via seed.value)
  | .ok rest =>
    let v := (← world).objectAs (.slot s) seed.type
    return .placed (some (← displayed seed.type.ty v, .startOf s)) (← get).lastError (← argumentShown via rest)

/-- Look at the value in a slot, which has to be of the given type up to qualifiers. -/
def storedIn (s : SlotId) (type : Ty) : Run Reply := do
  requireSlot s
  let stored ← storedTypeOf type
  let a ← act (locateValue s type)
  return .stored (← displayed type ((← world).objectAs (.slot s) stored)) a

end Run

end SlotHandles
