import SlotHandles.Placement

/-!
# Ownership

The operations on owning handles, wherever the handles are: a handle is made together with its value, moved,
copied, assigned, reset, swapped, cast and emptied by taking the value out.  An exclusive handle releases what it
owns before it reads the source of an assignment.  A shared one first counts the source, or moves it aside.

Which element types an operation is allowed for is not checked here; see `Ty.owns` and `Ty.takesOver`.
-/

namespace SlotHandles

/-- Adopt the value in a slot: no reference is added, but the slot has to be occupied. -/
def adopting (family : Family) (elem : Ty) (s : SlotId) (ref : Referent) : Act Handle := do
  if (← controlNow s).state ≠ .occupied then violate .adoptingVacant
  return ⟨family, elem, some s, ref⟩

/-- The block holds a value with the identity of the type. -/
def ControlBlock.holds (c : ControlBlock) (t : Ty) : Bool :=
  match c.heldType with
  | some u => u.ty = t.identity
  | none => false

/-- The address of the value in a slot, which has to be of exactly the given type. -/
def locateValue (s : SlotId) (t : Ty) : Act Address := do
  if !(← controlNow s).holds t then violate .wrongStoredType
  return .startOf s

/-- A new handle, and what is left of the argument its value was built from. -/
structure Made where
  handle : Handle
  rest : Value
  deriving Repr

/-- Build a value in a slot and return the handle that owns it, or the reason why nothing was built. -/
def make (family : Family) (elem : Ty) (s : SlotId) (o : Origin) : Act (Except ErrorCode Made) := do
  match ← placeValue s o with
  | .error e => return .error e
  | .ok rest =>
    let h ← adopting family elem s (.toValue elem o.type s)
    return .ok ⟨h, rest⟩

def makeOrThrow (family : Family) (elem : Ty) (s : SlotId) (o : Origin) : Act Made := do
  match ← make family elem s o with
  | .error e => raise (.slotError e)
  | .ok made => return made

/-- Move a handle out of its place, as a handle of element type `elem`. -/
def moveHandle (elem : Ty) (p : Holder) : Act Handle := do
  let h ← readHandle p
  writeHandle p h.cleared
  return h.convert elem

/-- Copy the shared handle at a place, as a handle of element type `elem`. -/
def copyHandle (elem : Ty) (p : Holder) : Act Handle := do
  let h ← readHandle p
  match h.slot with
  | some s => onControl s ControlBlock.addReference
  | none => pure ()
  return h.convert elem

/-- Empty the handle at a place and release what it owned. -/
def resetHandle (p : Holder) : Act Unit := do
  let h ← readHandle p
  match h.family, h.slot with
  | .unique, none => pure ()
  | _, _ =>
    writeHandle p h.cleared
    release h

/-- Move-assign the handle at `source` to the one at `target`. -/
def assignByMove (target source : Holder) : Act Unit := do
  if target ≠ source then
    let old ← readHandle target
    match old.family with
    | .unique =>
      resetHandle target
      let new ← moveHandle old.elem source
      writeHandle target new
    | .shared =>
      let new ← moveHandle old.elem source
      release old
      writeHandle target new

/-- Copy-assign the shared handle at `source` to the one at `target`. -/
def assignByCopy (target source : Holder) : Act Unit := do
  match (← readHandle source).slot with
  | some s => onControl s ControlBlock.addReference
  | none => pure ()
  let old ← readHandle target
  release old
  let new ← readHandle source
  writeHandle target (new.convert old.elem)

def swapHandles (p q : Holder) : Act Unit := do
  let a ← readHandle p
  let b ← readHandle q
  writeHandle p b
  writeHandle q a

def elementOf (h : Handle) : Act Value := do
  match h.ref.address with
  | none => throw .nullAccess
  | some a =>
    match (← get).object? a.region with
    | some v => return v
    | none => throw .nullAccess

/-- Take the value out of the slot that the exclusive handle at a place owns, and release the slot.  The handle has
to be one of the value's own type. -/
def takeValue (p : Holder) : Act Value := do
  let h ← readHandle p
  match h.slot with
  | none => violate .takingEmpty
  | some s =>
    if !(← controlNow s).holds h.elem then violate .takingSlice
    let v ← elementOf h
    let t ← if h.elem.quals.isConst then copyValue v else moveValue v
    match h.ref.address with
    | some a => writeObject a.region t.source
    | none => pure ()
    resetHandle p
    return t.value

/-- Move the ownership of the handle at a place to a handle of the stored type itself; an empty handle if the slot
holds another type. -/
def castByMove (elem : Ty) (p : Holder) : Act Handle := do
  let h ← readHandle p
  match h.slot with
  | none => return .empty h.family elem
  | some s =>
    if !(← controlNow s).holds elem then return .empty h.family elem
    writeHandle p h.cleared
    let a ← locateValue s elem
    adopting h.family elem s (.object (some a))

/-- Share the ownership of the shared handle at a place with a handle of the stored type itself; an empty handle if
the slot holds another type. -/
def castByCopy (elem : Ty) (p : Holder) : Act Handle := do
  let h ← readHandle p
  match h.slot with
  | none => return .empty h.family elem
  | some s =>
    if !(← controlNow s).holds elem then return .empty h.family elem
    onControl s ControlBlock.addReference
    let a ← locateValue s elem
    adopting h.family elem s (.object (some a))

end SlotHandles
