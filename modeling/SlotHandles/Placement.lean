import SlotHandles.Teardown
import SlotHandles.Value.Seed

/-!
# Placing a value in a slot

A value is built in a slot in three steps: the slot is claimed, the value is built, and the value is published with
one reference.  A construction that throws gives the slot back; arguments are consumed only by a construction that
runs.

What is built owns nothing yet: an `Origin` is made of seeds, which store no handle or an empty one.  So a factory is
not given a node that was taken out of a slot together with what it owns.  Handles are linked to a node afterwards.
-/

namespace SlotHandles

/-- What a value is built from: its arguments, or another value of its type that is moved from or copied. -/
inductive Origin
  | arguments (seed : Seed)
  | moved (seed : Seed)
  | copied (seed : Seed)

def Origin.seed : Origin → Seed
  | .arguments s | .moved s | .copied s => s

def Origin.type (o : Origin) : StoredType := o.seed.type

/-- Count the handle that a copied value shares. -/
def shareNext (v : Value) : Act Unit :=
  match v.next? with
  | some h =>
    match h.family, h.slot with
    | .shared, some s => onControl s ControlBlock.addReference
    | _, _ => pure ()
  | none => pure ()

/-- Carry out a transfer; a copy may be refused, and shares the handle that the value stores. -/
def transfer (t : Transfer) (byCopy : Bool) : Act Unit := do
  recordAll t.events
  if byCopy then
    match t.value.copyRefusal? with
    | some refusal =>
      recordAll t.value.unwinding
      raise refusal
    | none => shareNext t.value

def moveValue (v : Value) : Act Transfer := do
  transfer v.moveTransfer v.movesByCopy
  return v.moveTransfer

def copyValue (v : Value) : Act Transfer := do
  transfer v.copyTransfer true
  return v.copyTransfer

/-- Build a value from its arguments, in a claimed slot. -/
def buildFresh (s : SlotId) (v : Value) : Act Unit := do
  recordAll v.arrival
  match v.refusal? with
  | some refusal =>
    recordAll v.unwinding
    raise refusal
  | none =>
    match v with
    | .probe id actions _ => do
      record (.probeBuilt id (← controlNow s).summary)
      actions.forM (performWith tearDown id s)
    | _ => pure ()

/-- Build a value in a claimed slot.  Returns the value, and what is left of the one it was built from. -/
def build (s : SlotId) : Origin → Act (Value × Value)
  | .arguments seed => do
    buildFresh s seed.value
    return (seed.value, seed.value)
  | .moved seed => do
    let t ← moveValue seed.value
    return (t.value, t.source)
  | .copied seed => do
    let t ← copyValue seed.value
    return (t.value, t.source)

/-- Run a construction; if it throws, give the claimed slot back and throw on. -/
def givingBack {α : Type} (s : SlotId) (construction : Act α) : Act α := fun w =>
  match construction w with
  | .error (.exception t) w' => (do onControl s ControlBlock.abandon; raise t) w'
  | r => r

/-- Build a value in a slot.  On success the slot is occupied with one reference, and the result is what is left of
the argument; otherwise the reason why nothing was built. -/
def placeValue (s : SlotId) (o : Origin) : Act (Except ErrorCode Value) := do
  match ← claim s o.type.layout with
  | .error e => return .error e
  | .ok () =>
    let (v, rest) ← givingBack s (build s o)
    publish s v
    return .ok rest

end SlotHandles
