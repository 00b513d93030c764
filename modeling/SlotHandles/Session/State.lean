import SlotHandles.Access
import SlotHandles.Capacity
import SlotHandles.Session.Reply
import SlotHandles.Session.Step

/-!
# The state of a session

A session runs in a world and remembers besides it the outcome of its results, its views, and the last error of a
direct occupation.  A step of a session may be refused before it touches anything.
-/

namespace SlotHandles

/-- The state of a session.  A result that holds a handle has the code of no error. -/
structure Session where
  world : World
  results : Table String ErrorCode
  views : Table String (Interface × View)
  lastError : ErrorCode

inductive Halt
  | failed (f : Failure)
  | refused (r : Refusal)
  deriving Repr

abbrev Run := EStateM Halt Session

namespace Session

/-- A slot of a session: one that holds every type of the catalogue, or some bytes behind an aligned address. -/
inductive SlotSpec
  | anyType
  | bytes (size offset : Nat)
  deriving DecidableEq, Repr

/-- The shape that holds every type of the catalogue. -/
def anyShape : SlotShape :=
  SlotShape.holding (StoredType.single .int).layout (StoredType.catalogue.map StoredType.layout)

def boundary : Nat := 0x1000

def SlotSpec.slot : SlotSpec → Slot
  | .anyType => ⟨anyShape.control boundary, none⟩
  | .bytes size offset => ⟨.fresh (boundary + offset) size, none⟩

/-- A place in a program that makes handles in a static slot of its own. -/
structure StaticSite where
  family : Family
  elem : Ty
  type : StoredType
  takesArgument : Bool

/-- The static sites of a session. -/
def staticSites : List StaticSite :=
  [⟨.unique, .ofKind .tracked, .single .tracked, true⟩,
    ⟨.shared, .ofKind .int, .single .int, true⟩,
    ⟨.unique, .view .none .shape, .single .circle, true⟩,
    ⟨.shared, .ofKind .base, .single .derived, true⟩,
    ⟨.unique, .ofKind .ticker, .single .ticker, false⟩,
    ⟨.shared, .ofKind .picky, .single .picky, true⟩]

/-- A fresh slot that holds exactly the type of a site. -/
def StaticSite.slot (s : StaticSite) : Slot := ⟨(SlotShape.holding s.type.layout []).control boundary, none⟩

def start (specs : List SlotSpec) : Session where
  world := .ofSlots <|
    specs.zipIdx.map (fun (spec, i) => (.numbered i, spec.slot)) ++
      staticSites.zipIdx.map (fun (site, i) => (.static i, site.slot))
  results := []
  views := []
  lastError := .none

end Session

namespace Run

def refuse {α : Type} (r : Refusal) : Run α := throw (.refused r)

def require (condition : Bool) (r : Refusal) : Run Unit := if condition then pure () else refuse r

def act {α : Type} (a : Act α) : Run α := fun s =>
  match a s.world with
  | .ok x w => .ok x { s with world := w }
  | .error f w => .error (.failed f) { s with world := w }

def world : Run World := return (← get).world

def handle (name : String) : Run Handle := do
  match (← world).handle? (.named name) with
  | some h => return h
  | none => refuse .badInput

def view (name : String) : Run (Interface × View) := do
  match (← get).views.find? name with
  | some v => return v
  | none => refuse .badInput

def requireSlot (s : SlotId) : Run Unit := do
  require ((← world).slots.find? s).isSome .badInput

/-- Put a handle at a place and release the one that was there. -/
def replace (p : Holder) (h : Handle) : Run Unit := do
  let old := (← world).handle? p
  act (writeHandle p h)
  match old with
  | some o => act (release o)
  | none => pure ()

def store (name : String) (h : Handle) : Run Unit := replace (.named name) h

/-- Remove the handle at a place and release it. -/
def remove (p : Holder) : Run Unit := do
  match (← world).handle? p with
  | some h =>
    modify fun s => { s with world.held := s.world.held.remove p }
    act (release h)
  | none => pure ()

def infoOf (h : Handle) : Run Info := return (← world).info h

def infoAt (p : Holder) : Run Info := do
  match (← world).handle? p with
  | some h => infoOf h
  | none => refuse .badInput

/-- The stored type that a type names, with or without qualifiers.  Views and blocks name none. -/
def storedTypeOf (t : Ty) : Run StoredType :=
  match StoredType.ofTy? t with
  | some s => pure s
  | none => refuse .badInput

def displayed (elem : Ty) (v : Value) : Run Datum := do
  let w ← world
  return v.shownAs w.countOf elem

end Run

end SlotHandles
