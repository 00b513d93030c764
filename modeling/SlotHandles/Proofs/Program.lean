import SlotHandles.Session.Handles

/-!
# Handle programs

A handle program uses slots through handles only: it makes handles together with their values, moves, copies,
assigns, resets, swaps, casts and destroys them, takes values out, and looks at values in between.  The handles it
names are held by the program, stored in the live value of a slot, or stored in a value that was taken out.  It
never calls a control block, and its values do not do so either (`Value.isPassive`).

* `HandleStep` is one step and `HandleStep.run` what it does, by the operations on handles.
* `HandleStep.Admissible` says when a step can be written: the places exist, a new handle gets a place of its own,
  and the types allow the operation.
* `HandleStep.Undisturbed` says that an assignment tears down no value that stores its own target or source.
* `Reachable` are the worlds in which a handle program over empty slots can be after a completed step.
-/

namespace SlotHandles

/-- A value whose construction may throw, but which calls no control block, neither when it is built nor when it is
destroyed. -/
def Value.isPassive : Value → Bool
  | .probe _ onBuild onDestroy => onBuild.all (· = .raise) && onDestroy.isEmpty
  | _ => true

/-- A change to a value that keeps its type, the handle it stores and what it does to its slot. -/
def Value.KeepsLink (f : Value → Value) : Prop :=
  ∀ v, (f v).type = v.type ∧ (f v).next? = v.next? ∧ (f v).isPassive = v.isPassive

/-- The place is outside of values: the program holds the handle itself. -/
def Holder.isOwn : Holder → Bool
  | .named _ | .result _ => true
  | .inside _ | .within _ => false

namespace World

/-- The handle stored in the live value of a slot. -/
def nestedIn (w : World) (s : SlotId) : Option Handle :=
  if (w.controlOf s).state = .occupied then (w.storageOf s).bind Value.next? else none

/-- The handle at a place, as long as the value that stores it is alive. -/
def live? (w : World) : Holder → Option Handle
  | .inside s => w.nestedIn s
  | p => w.handle? p

/-- A place of the program's own that holds no handle yet. -/
def Vacant (w : World) (p : Holder) : Prop := p.isOwn ∧ w.held.find? p = none

/-- The count of some live value has reached its limit. -/
def Overfull (w : World) : Prop := ∃ s, (w.controlOf s).state = .occupied ∧ (w.controlOf s).count = 0xffffffff

def since (w' w : World) : List Event := w'.trace.drop w.trace.length

end World

namespace Ty

/-- A handle can have the type for its element: it is no reference and no block of fixed extent. -/
def isElement : Ty → Bool
  | .reference _ => false
  | .block _ (some _) => false
  | _ => true

/-- A handle can be cast to the type: it is the type of an object that is no view. -/
def isConcrete (t : Ty) : Bool := !t.isView && !t.isBlock && !t.isReference

/-- A value can be taken out through the element type.  A constant value is copied. -/
def isTakeable (t : Ty) : Bool :=
  Run.takeable t && (!t.quals.isConst || ((StoredType.ofTy? t).map StoredType.copyable).getD false)

end Ty

/-- A value as its constructor leaves it: it is passive, and the handle it stores is the empty one of its type. -/
def Seed.IsNew (s : Seed) : Prop := s.value.isPassive ∧ s.value.next? = (Value.blank s.type).next?

/-- The value can be built from the origin: moved from or copied only if its type allows it. -/
def Origin.isAllowed : Origin → Bool
  | .arguments _ => true
  | .moved seed => seed.type.movable
  | .copied seed => seed.type.copyable

/-- One step of a handle program.  `into` names the place of a new handle or value.  A reset is also what the assignment
of no handle does. -/
inductive HandleStep
  | empty (into : Holder) (family : Family) (elem : Ty)
  | make (into : Holder) (slot : SlotId) (family : Family) (elem : Ty) (origin : Origin) (throwing : Bool)
  | constructByMove (into : Holder) (elem : Ty) (source : Holder)
  | constructByCopy (into : Holder) (elem : Ty) (source : Holder)
  | assignByMove (target source : Holder)
  | assignByCopy (target source : Holder)
  | reset (p : Holder)
  | destroy (p : Holder)
  | swap (p q : Holder)
  | castByMove (into : Holder) (elem : Ty) (source : Holder)
  | castByCopy (into : Holder) (elem : Ty) (source : Holder)
  | take (into : String) (p : Holder)
  | destroyTaken (name : String)
  | dereference (p : Holder)
  | change (p : Holder) (f : Value → Value)
  | readItem (p : Holder) (i : Nat)
  | writeItem (p : Holder) (i : Nat) (n : Int32)
  | call (p : Holder) (method : Method)

inductive Answer
  | done
  | refused (error : ErrorCode)
  | value (v : Value)
  | item (n : Int32)
  | view (v : View)
  | datum (d : Datum)

def keepHandle (into : Holder) (h : Handle) : Act Answer := do
  writeHandle into h
  return .done

/-- The handle at a place leaves it and releases what it owns. -/
def destroyHandle (p : Holder) : Act Unit := do
  let h ← readHandle p
  modify fun w => { w with held := w.held.remove p }
  release h

def destroyNamed (name : String) : Act Unit := do
  match (← get).values.find? name with
  | some v =>
    modify fun w => { w with values := w.values.remove name }
    destroyValue v
  | none => pure ()

/-- Look at the element of a handle: its value, or the view embedded in the handle. -/
def lookThrough (h : Handle) : Act Answer := do
  if h.elem.isView then return .view (← dereferenceView h) else return .value (← dereference h)

def changeThrough (h : Handle) (f : Value → Value) : Act Unit := do
  let v ← dereference h
  match h.ref.address with
  | some a => writeObject a.region (f v)
  | none => pure ()

namespace HandleStep

def run : HandleStep → Act Answer
  | .empty into family elem => keepHandle into (.empty family elem)
  | .make into s family elem origin throwing => do
    let made ← if throwing then Except.ok <$> makeOrThrow family elem s origin
      else SlotHandles.make family elem s origin
    match made with
    | .error e => return .refused e
    | .ok m => keepHandle into m.handle
  | .constructByMove into elem source => do keepHandle into (← moveHandle elem source)
  | .constructByCopy into elem source => do keepHandle into (← copyHandle elem source)
  | .assignByMove target source => do
    SlotHandles.assignByMove target source
    return .done
  | .assignByCopy target source => do
    SlotHandles.assignByCopy target source
    return .done
  | .reset p => do
    resetHandle p
    return .done
  | .destroy p => do
    destroyHandle p
    return .done
  | .swap p q => do
    swapHandles p q
    return .done
  | .castByMove into elem source => do keepHandle into (← SlotHandles.castByMove elem source)
  | .castByCopy into elem source => do keepHandle into (← SlotHandles.castByCopy elem source)
  | .take into p => do
    let v ← takeValue p
    writeObject (.named into) v
    return .value v
  | .destroyTaken name => do
    destroyNamed name
    return .done
  | .dereference p => do lookThrough (← readHandle p)
  | .change p f => do
    changeThrough (← readHandle p) f
    return .done
  | .readItem p i => do return .item (← SlotHandles.readItem (← readHandle p) i)
  | .writeItem p i n => do
    SlotHandles.writeItem (← readHandle p) i n
    return .done
  | .call p m => do return .datum (← callThrough (← dereferenceView (← readHandle p)) m)

/-- The step can be written down in the world: its places exist and its types are allowed. -/
def Admissible (w : World) : HandleStep → Prop
  | .empty into _ elem => w.Vacant into ∧ elem.isElement
  | .make into s _ elem origin _ =>
    w.Vacant into ∧ (w.slots.find? s).isSome ∧ elem.owns origin.type.ty ∧ origin.isAllowed ∧ origin.seed.IsNew
  | .constructByMove into elem source =>
    w.Vacant into ∧ ∃ h, w.live? source = some h ∧ Run.convertible elem h.elem
  | .constructByCopy into elem source =>
    w.Vacant into ∧ ∃ h, w.live? source = some h ∧ h.family = .shared ∧ Run.convertible elem h.elem
  | .assignByMove target source =>
    ∃ old h, w.live? target = some old ∧ w.live? source = some h ∧ old.family = h.family ∧
      Run.convertible old.elem h.elem
  | .assignByCopy target source =>
    ∃ old h, w.live? target = some old ∧ w.live? source = some h ∧ old.family = .shared ∧ h.family = .shared ∧
      Run.convertible old.elem h.elem
  | .reset p => ∃ h, w.live? p = some h
  | .destroy p => p.isOwn ∧ ∃ h, w.held.find? p = some h
  | .swap p q => ∃ a b, w.live? p = some a ∧ w.live? q = some b ∧ a.family = b.family ∧ a.elem = b.elem
  | .castByMove into elem source => w.Vacant into ∧ elem.isConcrete ∧ ∃ h, w.live? source = some h
  | .castByCopy into elem source =>
    w.Vacant into ∧ elem.isConcrete ∧ ∃ h, w.live? source = some h ∧ h.family = .shared
  | .take into p =>
    w.values.find? into = none ∧ ∃ h, w.live? p = some h ∧ h.family = .unique ∧ h.elem.isTakeable
  | .destroyTaken name => ∃ v, w.values.find? name = some v
  | .dereference p => ∃ h, w.live? p = some h ∧ h.elem.isBlock = false
  | .change p f =>
    Value.KeepsLink f ∧ ∃ h, w.live? p = some h ∧ h.elem.isBlock = false ∧ h.elem.isView = false
  | .readItem p _ => ∃ h, w.live? p = some h ∧ h.elem.isBlock
  | .writeItem p _ _ => ∃ h, w.live? p = some h ∧ h.elem.isBlock ∧ h.family = .unique ∧ h.elem.quals.isConst = false
  | .call p m =>
    ∃ h face, w.live? p = some h ∧ h.elem.face? = some face ∧ m.belongsTo face ∧
      (m.modifies → h.family = .unique)

def looksThrough : HandleStep → Option Holder
  | .dereference p | .change p _ | .readItem p _ | .writeItem p _ _ | .call p _ => some p
  | _ => none

def index? : HandleStep → Option Nat
  | .readItem _ i | .writeItem _ i _ => some i
  | _ => none

/-- What the step does wrong when it ends in the violation: it looks through an empty handle or beyond the items of
one, takes a value through an empty handle or one of another type, or shares a value too often.  No other violation
is due to the use of handles. -/
def Misuses (st : HandleStep) (w : World) : Violation → Prop
  | .dereferencingEmpty family => ∃ p h, st.looksThrough = some p ∧ w.live? p = some h ∧ h.slot = none ∧
      h.family = family
  | .indexOutOfRange i n => ∃ p h, st.looksThrough = some p ∧ st.index? = some i ∧ w.live? p = some h ∧
      h.ref.extent = n ∧ n ≤ i
  | .takingEmpty => ∃ into p h, st = .take into p ∧ w.live? p = some h ∧ h.slot = none
  | .takingSlice => ∃ into p h s t, st = .take into p ∧ w.live? p = some h ∧ h.slot = some s ∧
      (w.controlOf s).heldType = some t ∧ t.ty ≠ h.elem.identity
  | .countOverflow => w.Overfull
  | _ => False

/-- The places whose handles the step assigns, from one to the other. -/
def assigned : HandleStep → List Holder
  | .assignByMove target source | .assignByCopy target source => [target, source]
  | _ => []

/-- No value that stores the target or the source of an assignment is torn down by it. -/
def Undisturbed (st : HandleStep) (w w' : World) : Prop :=
  ∀ s, .inside s ∈ st.assigned → ∀ t, Event.destructed s t ∉ w'.since w

/-- The step completes: it answers, or a value's code throws an exception. -/
inductive Completes (st : HandleStep) (w w' : World) : Prop
  | returned (a : Answer) (h : st.run w = .ok a w')
  | threw (t : Thrown) (h : st.run w = .error (.exception t) w')

end HandleStep

/-- Distinct slots, all of them empty. -/
def AllEmpty (slots : Table SlotId Slot) : Prop :=
  (slots.map Prod.fst).Nodup ∧ ∀ e ∈ slots, e.2.control.state = .empty

/-- The worlds of a handle program over the given slots, before its first step and after each completed one. -/
inductive Reachable (slots : Table SlotId Slot) : World → Prop
  | start : Reachable slots (.ofSlots slots)
  | step {w w' : World} (st : HandleStep) : Reachable slots w → st.Admissible w → st.Completes w w' →
      st.Undisturbed w w' → Reachable slots w'

end SlotHandles
