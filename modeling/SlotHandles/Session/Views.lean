import SlotHandles.Session.State

/-!
# Views in a session

The steps on views: those embedded in handles and those of the session's own values.
-/

namespace SlotHandles

namespace Run

def call (name : String) (m : Method) : Run Reply := do
  let h ← handle name
  match h.elem.face? with
  | none => refuse .rejected
  | some face =>
    let v ← act (dereferenceView h)
    require (m.belongsTo face && !(m.modifies && h.family = .shared)) .rejected
    return .datum (← act (callThrough v m))

def viewOf (name : String) : Run Reply := do
  let h ← handle name
  require h.elem.isView .rejected
  return .view (← act (dereferenceView h))

/-- Overwrite the view in an exclusive handle that has one. -/
def reseat (name viewName : String) : Run Reply := do
  let h ← handle name
  let (face, v) ← view viewName
  require (h.family = .unique && h.elem.face? = some face && h.ref.isSome && v.isSome) .rejected
  let h' := { h with ref := .view v }
  act (writeHandle (.named name) h')
  return .info (← infoOf h')

/-- Make a value of the session's own.  Its construction is not announced. -/
def makeValue (name : String) (seed : Seed) : Run Reply := do
  act (writeObject (.named name) seed.value)
  return .null

def valueNamed (name : String) : Run Value := do
  match (← world).object? (.named name) with
  | some v => return v
  | none => refuse .badInput

def showValue (name : String) : Run Reply := do
  let v ← valueNamed name
  return .datum (← displayed v.type.ty v)

def storeView (name : String) (face : Interface) (v : View) : Run Unit :=
  modify fun s => { s with views := s.views.put name (face, v) }

/-- View a value of the session's own through an interface that its type satisfies. -/
def viewValue (viewName : String) (face : Interface) (name : String) : Run Reply := do
  let v ← valueNamed name
  require (face.satisfiedBy v.type.ty) .rejected
  let view := View.of ⟨.named name, 0⟩ v.type
  storeView viewName face view
  return .view view

def makeEmptyView (name : String) (face : Interface) : Run Reply := do
  storeView name face .empty
  return .view .empty

def copyView (name into : String) : Run Reply := do
  let (face, v) ← view name
  storeView into face v
  return .null

def viewInfo (name : String) : Run Reply := do
  let (_, v) ← view name
  return .view v

/-- Call an operation through a view.  A constant view only allows operations that do not modify. -/
def callView (name : String) (m : Method) (isConst : Bool) : Run Reply := do
  let (face, v) ← view name
  require (m.belongsTo face && !(m.modifies && isConst)) .rejected
  return .datum (← act (callThrough v m))

end Run

end SlotHandles
