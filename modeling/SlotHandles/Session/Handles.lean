import SlotHandles.Session.State

/-!
# Handles in a session

The steps on one or two named handles: looking at values through them, moving, copying, assigning, casting and
comparing them.
-/

namespace SlotHandles

namespace Run

def cloneMany (name : String) (n : Nat) : Run Reply := do
  let h ← handle name
  require (h.family = .shared) .rejected
  n.forM fun _ _ => do
    let copy ← act (copyHandle h.elem (.named name))
    modify fun s => { s with world.bag := copy :: s.world.bag }
  return .number (← world).bag.length

/-- Remove the newest handle of the bag and release it. -/
def dropNewest : Run Unit := do
  match (← world).bag with
  | [] => pure ()
  | h :: rest =>
    modify fun s => { s with world.bag := rest }
    act (release h)

/-- Remove the newest handles of the bag and release them, the newest first. -/
def bagDrop (n : Nat) : Run Reply := do
  (min n (← world).bag.length).forM fun _ _ => dropNewest
  return .number (← world).bag.length

/-- The value a handle refers to, as shown; of a view, the name of the type it is of. -/
def dereferenceHandle (name : String) : Run Reply := do
  let h ← handle name
  require (!h.elem.isBlock) .rejected
  if h.elem.isView then
    let v ← act (dereferenceView h)
    return .datum (match v.type with
      | some t => .text t.name
      | none => .null)
  else
    let v ← act (dereference h)
    return .datum (← displayed h.elem v)

/-- The value with a datum in the field that can be assigned through a handle of the element type. -/
def assigned (elem : Ty) (v : Value) (d : Datum) : Option Value :=
  match elem, v with
  | .plain _ (.kind .int), .int _ => return .int (← Seed.word d)
  | .plain _ (.kind .u8), .u8 _ => return .u8 (UInt8.ofInt (← d.int?))
  | .plain _ (.kind .string), .string _ => return .string (← d.text?)
  | .plain _ (.kind .tracked), .tracked _ => return .tracked (← Seed.word d)
  | .plain _ (.kind .big), .big _ => return .big (← Seed.word d)
  | .plain _ (.kind .picky), .picky t _ => return .picky t (← Seed.word d)
  | .plain _ (.kind .ticker), .ticker _ => return .ticker (← Seed.word d)
  | .plain _ (.kind .node), .node _ next => return .node (← Seed.word d) next
  | .plain _ (.kind .base), .base _ => return .base (← Seed.word d)
  | .plain _ (.kind .base), .derived t _ => return .derived t (← Seed.word d)
  | .plain _ (.kind .base), .diff _ => return .diff (← Seed.word d)
  | .plain _ (.kind .base), .deep t _ => return .deep t (← Seed.word d)
  | .plain _ (.kind .derived), .derived t _ => return .derived t (← Seed.word d)
  | .plain _ (.kind .derived), .deep t _ => return .deep t (← Seed.word d)
  | .plain _ (.kind .right), .right _ => return .right (← Seed.longWord d)
  | .plain _ (.kind .right), .both l _ => return .both l (← Seed.longWord d)
  | .plain _ (.kind .both), .both l _ => return .both l (← Seed.longWord d)
  | _, _ => none

/-- A field can be assigned through an exclusive handle of the element type. -/
def isAssignable (elem : Ty) : Bool :=
  match elem with
  | .plain q (.kind k) =>
    q = .none && ([.int, .u8, .string, .tracked, .big, .picky, .base, .derived, .right, .both, .node,
      .ticker] : List Kind).contains k
  | _ => false

/-- Assign a field of the value through an exclusive handle, and show the value. -/
def assignField (name : String) (d : Datum) : Run Reply := do
  let h ← handle name
  require (h.family = .unique && isAssignable h.elem) .rejected
  let v ← act (dereference h)
  match assigned h.elem v d, h.ref.address with
  | some v', some a =>
    act (writeObject a.region v')
    return .datum (← displayed h.elem v')
  | _, _ => refuse .badInput

def index (name : String) (i : Nat) : Run Reply := do
  let h ← handle name
  require h.elem.isBlock .rejected
  return .datum (.word (← act (readItem h i)))

/-- Items of a block that can be overwritten: they are not constant. -/
def hasWritableItems (elem : Ty) : Bool :=
  match elem with
  | .block (.plain q (.kind k)) none => q = .none && ([.int, .u8, .tracked] : List Kind).contains k
  | _ => false

/-- Overwrite an item through an exclusive handle to items that are not constant. -/
def setIndex (name : String) (i : Nat) (d : Datum) : Run Reply := do
  let h ← handle name
  require (h.family = .unique && hasWritableItems h.elem) .rejected
  match Seed.word d with
  | none => refuse .badInput
  | some n =>
    act (writeItem h i n)
    return .null

/-- All items a handle refers to, unchecked. -/
def span (name : String) : Run Reply := do
  let h ← handle name
  require h.elem.isBlock .rejected
  return .span h.ref.extent ((← world).itemsOf h) h.ref.address

/-- The stored type whose values can be taken out through an element type. -/
def takeable (elem : Ty) : Bool :=
  !elem.isView && !elem.isBlock &&
    match StoredType.ofTy? elem with
    | some t => t.movable
    | none => false

/-- Take the value out of an exclusive handle; it is destroyed at the end of the step. -/
def take (name : String) : Run Reply := do
  let h ← handle name
  require (h.family = .unique && takeable h.elem) .rejected
  let v ← act (takeValue (.named name))
  let shown ← displayed v.type.ty v
  let next ← match v with
    | .node _ n => some <$> infoOf n
    | _ => pure none
  act (destroyValue v)
  return .taken shown next

def cast (name into : String) (type : Ty) (mode : Mode) : Run Reply := do
  let h ← handle name
  let _ ← storedTypeOf type
  let new ← match mode with
    | .move => act (castByMove type (.named name))
    | .copy => do
      require (h.family = .shared) .rejected
      act (castByCopy type (.named name))
  let reply := Reply.infoPair (← infoOf new) (← infoAt (.named name))
  store into new
  return reply

/-- An element type converts to another for a new handle. -/
def convertible (target source : Ty) : Bool := target = source || target.takesOver source

def construct (name source : String) (elem : Option Ty) (mode : Mode) : Run Reply := do
  let h ← handle source
  let elem := elem.getD h.elem
  require (convertible elem h.elem) .rejected
  let new ← match mode with
    | .move => act (moveHandle elem (.named source))
    | .copy => do
      require (h.family = .shared) .rejected
      act (copyHandle elem (.named source))
  let reply := Reply.infoPair (← infoOf new) (← infoAt (.named source))
  store name new
  return reply

def assign (name source : String) (mode : Mode) : Run Reply := do
  let target ← handle name
  let h ← handle source
  require (target.family = h.family && convertible target.elem h.elem) .rejected
  match mode with
  | .move => act (assignByMove (.named name) (.named source))
  | .copy => do
    require (h.family = .shared) .rejected
    act (assignByCopy (.named name) (.named source))
  return .infoPair (← infoAt (.named name)) (← infoAt (.named source))

def swap (name source : String) : Run Reply := do
  let a ← handle name
  let b ← handle source
  require (a.family = b.family && a.elem = b.elem) .rejected
  act (swapHandles (.named name) (.named source))
  return .infoPair (← infoAt (.named name)) (← infoAt (.named source))

/-- The element types whose handles are compared. -/
def comparableElements : List Ty :=
  [.ofKind .int, .ofKind .tracked, .ofKind .base, .ofKind .derived, .ofKind .right, .ofKind .both, .ofKind .circle,
    .view .none .shape, .block (.ofKind .int) none, .fixed .none (.ofKind .int) 4]

/-- Two handles of one family and comparable element types. -/
def comparablePair (name source : String) : Run (Handle × Handle) := do
  let a ← handle name
  let b ← handle source
  require (a.family = b.family) .rejected
  require (comparableElements.contains a.elem && comparableElements.contains b.elem) .unsupported
  return (a, b)

/-- The handle owns a value in a static slot. -/
def inStaticSlot (h : Handle) : Bool := (h.slot.map SlotId.isStatic).getD false

def compare (name source : String) : Run Reply := do
  let (a, b) ← comparablePair name source
  let order := if inStaticSlot a || inStaticSlot b then none else some (a.compare b)
  return .comparison ⟨a.slot = b.slot, order, a.family = .shared⟩

/-- Compare the hashes of two handles, which are those of their slots. -/
def hash (name source : String) : Run Reply := do
  let (a, b) ← comparablePair name source
  return .hash (a.slot = b.slot) (!a.isSome)

/-- Insert a position under the owner of a handle into a list in owner order.  A key is copied when it is new. -/
def insertOwner (h : Handle) (position : Nat) :
    List (Handle × Nat) → List (Handle × Nat)
  | [] => [(h, position)]
  | (k, p) :: rest =>
    match h.compare k with
    | .lt => (h, position) :: (k, p) :: rest
    | .eq => (k, position) :: rest
    | .gt => (k, p) :: insertOwner h position rest

/-- Fill a map keyed by owner from shared handles, in order. -/
def ownerSet (names : List String) : Run Reply := do
  let handles ← names.mapM handle
  require (handles.all fun h => h.family = .shared && h.elem = .ofKind .int) .rejected
  let filled ← handles.zipIdx.foldlM (fun (m : List (Handle × Nat)) (e : Handle × Nat) => do
    if !(m.any fun k => k.1.slot = e.1.slot) then
      match e.1.slot with
      | some s => act (onControl s ControlBlock.addReference)
      | none => pure ()
    return insertOwner e.1 e.2 m) []
  let w ← world
  let items := filled.map fun (h, p) => (h.slot, p, w.useCount h)
  filled.forM fun (h, _) => act (release h)
  return .owners items

end Run

end SlotHandles
