import SlotHandles.ControlBlock
import SlotHandles.Event
import SlotHandles.Table
import SlotHandles.Value.Basic

/-!
# Worlds

A world is everything a program over slots and handles can touch: the slots with their control blocks and storage,
the handles the program holds, its own values, and the events so far.  A handle has a place (`Holder`): under a
name, in a result, inside the value stored in a slot, or within a value of the program's own.

Programs are actions `Act`.  An action ends with a result or with a failure, and either way leaves a world.
-/

namespace SlotHandles

/-- A slot: its control block and the value last built in its storage.  The storage keeps that value when it has
been destroyed; the control block tells whether it is alive. -/
structure Slot where
  control : ControlBlock
  storage : Option Value
  deriving Repr

inductive Holder
  | named (name : String)
  | result (name : String)
  | inside (slot : SlotId)
  | within (name : String)
  deriving DecidableEq, Repr

/-- The state of a program over slots and handles.  `bag` holds handles without a name, the newest first. -/
structure World where
  slots : Table SlotId Slot
  held : Table Holder Handle
  bag : List Handle
  values : Table String Value
  trace : List Event
  deriving Repr

/-- A program that acts on a world and may fail. -/
abbrev Act := EStateM Failure World

namespace World

def ofSlots (slots : Table SlotId Slot) : World := ⟨slots, [], [], [], []⟩

def controlOf (w : World) (s : SlotId) : ControlBlock :=
  match w.slots.find? s with
  | some slot => slot.control
  | none => .fresh 0 0

def setControl (w : World) (s : SlotId) (c : ControlBlock) : World :=
  { w with slots := w.slots.adjust s fun slot => { slot with control := c } }

def storageOf (w : World) (s : SlotId) : Option Value := (w.slots.find? s).bind Slot.storage

def setStorage (w : World) (s : SlotId) (v : Value) : World :=
  { w with slots := w.slots.adjust s fun slot => { slot with storage := some v } }

def countOf (w : World) (s : SlotId) : Nat := (w.controlOf s).count.toNat

/-- The number of handles that share the value of a handle's slot. -/
def useCount (w : World) (h : Handle) : Nat :=
  match h.slot with
  | some s => w.countOf s
  | none => 0

/-- The number of slots that hold a live value. -/
def liveSlots (w : World) : Nat := w.slots.countP fun e => e.2.control.state = .occupied

def object? (w : World) : Region → Option Value
  | .slot s => w.storageOf s
  | .named name => w.values.find? name

/-- The value in a region, taken for a value of the given type: storage that holds none reads as blank. -/
def objectAs (w : World) (r : Region) (t : StoredType) : Value :=
  match w.object? r with
  | some v => if v.type = t then v else .blank t
  | none => .blank t

def setObject (w : World) (r : Region) (v : Value) : World :=
  match r with
  | .slot s => w.setStorage s v
  | .named name => { w with values := w.values.put name v }

def handle? (w : World) : Holder → Option Handle
  | .inside s => (w.storageOf s).bind Value.next?
  | .within name => (w.values.find? name).bind Value.next?
  | p => w.held.find? p

def setHandle (w : World) (p : Holder) (h : Handle) : World :=
  match p with
  | .inside s =>
    match w.storageOf s with
    | some v => w.setStorage s (v.withNext h)
    | none => w
  | .within name =>
    match w.values.find? name with
    | some v => { w with values := w.values.put name (v.withNext h) }
    | none => w
  | p => { w with held := w.held.put p h }

/-!
### What the updates do to the views

An update of a control block or of the storage of one slot leaves the other half of that slot, every other slot and
all handles outside of slots alone.
-/

theorem find?_setControl (w : World) (s t : SlotId) (c : ControlBlock) :
    (w.setControl s c).slots.find? t =
      if t = s then (w.slots.find? t).map fun slot => { slot with control := c } else w.slots.find? t := by
  by_cases h : t = s
  · subst h; simp [setControl, Table.find?_adjust_self]
  · simp [setControl, Table.find?_adjust_of_ne _ _ h, h]

theorem find?_setStorage (w : World) (s t : SlotId) (v : Value) :
    (w.setStorage s v).slots.find? t =
      if t = s then (w.slots.find? t).map fun slot => { slot with storage := some v } else w.slots.find? t := by
  by_cases h : t = s
  · subst h; simp [setStorage, Table.find?_adjust_self]
  · simp [setStorage, Table.find?_adjust_of_ne _ _ h, h]

theorem controlOf_setControl_self {w : World} {s : SlotId} (c : ControlBlock) (h : (w.slots.find? s).isSome) :
    (w.setControl s c).controlOf s = c := by
  obtain ⟨slot, e⟩ := Option.isSome_iff_exists.mp h
  simp [controlOf, find?_setControl, e]

theorem controlOf_setControl_of_ne (w : World) {s t : SlotId} (c : ControlBlock) (h : t ≠ s) :
    (w.setControl s c).controlOf t = w.controlOf t := by
  simp [controlOf, find?_setControl, h]

@[simp] theorem storageOf_setControl (w : World) (s t : SlotId) (c : ControlBlock) :
    (w.setControl s c).storageOf t = w.storageOf t := by
  unfold storageOf
  rw [find?_setControl]
  split
  · cases w.slots.find? t <;> rfl
  · rfl

@[simp] theorem controlOf_setStorage (w : World) (s t : SlotId) (v : Value) :
    (w.setStorage s v).controlOf t = w.controlOf t := by
  rw [controlOf, find?_setStorage, controlOf]
  by_cases h : t = s
  · rw [if_pos h]
    cases w.slots.find? t <;> rfl
  · rw [if_neg h]

theorem storageOf_setStorage_self {w : World} {s : SlotId} (v : Value) (h : (w.slots.find? s).isSome) :
    (w.setStorage s v).storageOf s = some v := by
  obtain ⟨slot, e⟩ := Option.isSome_iff_exists.mp h
  simp [storageOf, find?_setStorage, e]

theorem storageOf_setStorage_of_ne (w : World) {s t : SlotId} (v : Value) (h : t ≠ s) :
    (w.setStorage s v).storageOf t = w.storageOf t := by
  simp [storageOf, find?_setStorage, h]

@[simp] theorem handle?_setControl (w : World) (s : SlotId) (c : ControlBlock) (p : Holder) :
    (w.setControl s c).handle? p = w.handle? p := by
  cases p with
  | inside t => simp [handle?]
  | named _ | result _ | within _ => rfl

@[simp] theorem controlOf_setHandle (w : World) (p : Holder) (h : Handle) (s : SlotId) :
    (w.setHandle p h).controlOf s = w.controlOf s := by
  cases p with
  | inside t =>
    unfold setHandle
    dsimp only
    split
    · exact controlOf_setStorage ..
    · rfl
  | within n =>
    unfold setHandle
    dsimp only
    split <;> rfl
  | named _ | result _ => rfl

end World

def violate {α : Type} (v : Violation) : Act α := throw (.violation v)

def raise {α : Type} (t : Thrown) : Act α := throw (.exception t)

def record (e : Event) : Act Unit := modify fun w => { w with trace := w.trace ++ [e] }

def recordAll (es : List Event) : Act Unit := modify fun w => { w with trace := w.trace ++ es }

/-- Run a transition of the control block of a slot.  What was written before a report stays. -/
def onControl {α : Type} (s : SlotId) (op : ControlBlock.Op α) : Act α := fun w =>
  match op (w.controlOf s) with
  | .ok a c => .ok a (w.setControl s c)
  | .error v c => .error (.violation v) (w.setControl s c)

/-- The control block of a slot, at this moment. -/
def controlNow (s : SlotId) : Act ControlBlock := return (← get).controlOf s

/-- The handle at a place.  Reading one inside a value that is not alive leaves a trace. -/
def readHandle (p : Holder) : Act Handle := do
  let w ← get
  match p with
  | .inside s => if (w.controlOf s).state ≠ .occupied then record (.readAfterDestruction s)
  | _ => pure ()
  return (w.handle? p).getD (.empty .unique (.ofKind .node))

/-- Put a handle at a place; the handle that was there is not released. -/
def writeHandle (p : Holder) (h : Handle) : Act Unit := modify (·.setHandle p h)

def writeObject (r : Region) (v : Value) : Act Unit := modify (·.setObject r v)

end SlotHandles
