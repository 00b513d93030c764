import SlotHandles.Value.Lifetime
import SlotHandles.World

/-!
# Tearing down

Tearing down the value in a slot claims the slot, runs the value's destructor and gives the slot back.  The
destructor of a value that stores a handle releases that handle, so one teardown can run through a whole chain of
slots before the first slot is given back.

A slot is claimed only while it is occupied and nothing becomes occupied on the way, so the number of live slots
bounds the depth of a cascade.  `tearDownWithin` takes that bound as its first argument; `tearDown` computes it.
-/

namespace SlotHandles

/-- Let go of a handle: tear down the value it owns alone, or count one reference less. -/
def releaseWith (tearDown : SlotId → Act Unit) (h : Handle) : Act Unit :=
  match h.slot with
  | none => pure ()
  | some s =>
    match h.family with
    | .unique => tearDown s
    | .shared => do
      if ← onControl s ControlBlock.dropReference then tearDown s

/-- Claim a slot for a value of the given layout: it has to fit, and the slot has to be empty. -/
def claim (s : SlotId) (l : Layout) : Act (Except ErrorCode Unit) := do
  if !(← controlNow s).hasRoom l.size l.alignment then
    return .error .capacityExceeded
  else if ← onControl s ControlBlock.tryClaim then
    return .ok ()
  else
    return .error .slotOccupied

def publish (s : SlotId) (v : Value) : Act Unit := do
  writeObject (.slot s) v
  onControl s (ControlBlock.publish v.type)
  record (.constructed s v.type)

def performWith (tearDown : SlotId → Act Unit) (id : Int32) (s : SlotId) : Action → Act Unit
  | .place t => do
    match ← claim s t.layout with
    | .error e => record (.refused e)
    | .ok () =>
      let v := Value.blank t
      recordAll v.arrival
      publish s v
      record .placed
  | .tryClaim => discard <| onControl s ControlBlock.tryClaim
  | .publish t => onControl s (ControlBlock.publish t)
  | .abandon => onControl s ControlBlock.abandon
  | .teardown => tearDown s
  | .addReference => onControl s ControlBlock.addReference
  | .dropReference => do
    if ← onControl s ControlBlock.dropReference then tearDown s
  | .raise => raise (.runtimeError s!"probe {id.toInt}")

/-- Destroy a value that is in no slot, or whose slot has been claimed: its own destructor, then its handle. -/
def destroyWith (tearDown : SlotId → Act Unit) (v : Value) : Act Unit := do
  recordAll v.parting
  match v.next? with
  | some h => releaseWith tearDown h
  | none => pure ()

/-- Destroy the value in a claimed slot.  An exclusive handle it stores is emptied before its value is torn
down. -/
def destroyStoredWith (tearDown : SlotId → Act Unit) (s : SlotId) (t : StoredType) : Act Unit := do
  record (.destructed s t)
  let v := (← get).objectAs (.slot s) t
  match v with
  | .probe id _ actions => do
    record (.probeDestroyed id (← controlNow s).summary)
    actions.forM (performWith tearDown id s)
  | .node _ h => writeObject (.slot s) (v.withNext h.cleared)
  | _ => pure ()
  destroyWith tearDown v

/-- Tear down the value in a slot, through at most `depth` slots. -/
def tearDownWithin : Nat → SlotId → Act Unit
  | 0, s => discard <| onControl s ControlBlock.beginTeardown
  | depth + 1, s => do
    match ← onControl s ControlBlock.beginTeardown with
    | some t => destroyStoredWith (tearDownWithin depth) s t
    | none => pure ()
    onControl s ControlBlock.vacate

/-- Tear down the value in a slot and return the slot to empty. -/
def tearDown (s : SlotId) : Act Unit := fun w => tearDownWithin w.liveSlots s w

def release (h : Handle) : Act Unit := releaseWith tearDown h

def destroyValue (v : Value) : Act Unit := destroyWith tearDown v

end SlotHandles
