import SlotHandles.Ownership
import SlotHandles.Value.Interface

/-!
# Access

Looking at a value through a handle, an item of a collection, or a view.  Every access through a handle first
checks that the handle owns a live value and, for a view, that the view is one of that value's type.
-/

namespace SlotHandles

/-- The checks in front of every access. -/
def checkAccess (h : Handle) : Act Unit := do
  match h.slot with
  | none => violate (.dereferencingEmpty h.family)
  | some s =>
    let c ← controlNow s
    if c.state ≠ .occupied then violate (.dereferencingDead h.family)
    match h.ref with
    | .view v =>
      if !v.isSome then throw .nullAccess
      if v.type ≠ c.heldType then violate .foreignView
    | _ => pure ()

def dereference (h : Handle) : Act Value := do
  checkAccess h
  elementOf h

def dereferenceView (h : Handle) : Act View := do
  checkAccess h
  match h.ref with
  | .view v => return v
  | _ => return .empty

/-- Check an index against the number of items of a handle, after the checks. -/
def checkIndex (h : Handle) (i : Nat) : Act Unit := do
  checkAccess h
  if i ≥ h.ref.extent then violate (.indexOutOfRange i h.ref.extent)

def readItem (h : Handle) (i : Nat) : Act Int32 := do
  checkIndex h i
  return ((← elementOf h).item? i).getD 0

def writeItem (h : Handle) (i : Nat) (n : Int32) : Act Unit := do
  checkIndex h i
  let v ← elementOf h
  match h.ref.address with
  | some a => writeObject a.region (v.setItem i n)
  | none => pure ()

/-- The items a handle refers to, unchecked. -/
def World.itemsOf (w : World) (h : Handle) : List Int32 :=
  match h.ref.address.bind fun a => w.object? a.region with
  | some (.collection _ items) => items.take h.ref.extent
  | _ => []

def callThrough (v : View) (m : Method) : Act Datum := do
  match v.table, v.data with
  | none, _ => violate .callingEmptyView
  | some _, none => throw .nullAccess
  | some t, some a =>
    let called := ((← get).objectAs a.region t).call m
    writeObject a.region called.after
    match called.result with
    | .ok d => return d
    | .error thrown => raise thrown

end SlotHandles
