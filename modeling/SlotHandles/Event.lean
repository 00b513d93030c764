import SlotHandles.Handle

/-!
# Events

What happens to values and slots, in order.  Some events are announced by the values themselves and have a text;
the others only record that a value was built or destroyed, and in which slot.
-/

namespace SlotHandles

inductive Event
  | made (n : Int32)
  | copied (n : Int32)
  | moved (n : Int32)
  | gone (n : Int32)
  | farewell (name : String) (n : Int64)
  | probeBuilt (id : Int32) (control : String)
  | probeDestroyed (id : Int32) (control : String)
  | refused (error : ErrorCode)
  | placed
  | constructed (slot : SlotId) (type : StoredType)
  | destructed (slot : SlotId) (type : StoredType)
  | readAfterDestruction (slot : SlotId)
  deriving DecidableEq, Repr

/-- The text by which a value announces the event, if it does. -/
def Event.text? : Event → Option String
  | .made n => some s!"+{n.toInt}"
  | .copied n => some s!"c{n.toInt}"
  | .moved n => some s!"m{n.toInt}"
  | .gone n => some s!"-{n.toInt}"
  | .farewell name n => some s!"~{name} {n.toInt}"
  | .probeBuilt id control => some s!"probe {id.toInt} ctor {control}"
  | .probeDestroyed id control => some s!"probe {id.toInt} dtor {control}"
  | .refused error => some s!"refused {error.text}"
  | .placed => some "made"
  | .constructed .. | .destructed .. | .readAfterDestruction _ => none

end SlotHandles
