import SlotHandles.Event
import SlotHandles.Value.Basic

/-!
# The lifetime of a value

What a value announces when it is built, copied, moved and destroyed, when its construction fails, and what a move
leaves behind.  Releasing a stored handle is not part of this: it concerns other slots.
-/

namespace SlotHandles

/-- A value built from another one: the new value, what is left of the old one, and what was announced. -/
structure Transfer where
  value : Value
  source : Value
  events : List Event
  deriving Repr

namespace Value

/-- What a value announces when it is built from its arguments.  A collection is built aside and moved in. -/
def arrival : Value → List Event
  | .tracked n | .square n | .derived n _ | .deep n _ | .picky n _ => [.made n]
  | .collection .tracked items => items.map .moved
  | _ => []

/-- What a value announces when it is destroyed: derived parts before their bases, items from last to first. -/
def parting : Value → List Event
  | .tracked n | .square n | .picky n _ => [.gone n]
  | .base b | .diff b => [.farewell "Base" b.toInt64]
  | .derived t b | .deep t b => [.gone t, .farewell "Base" b.toInt64]
  | .left l => [.farewell "Left" l]
  | .right r => [.farewell "Right" r]
  | .both l r => [.farewell "Right" r, .farewell "Left" l]
  | .node id _ => [.farewell "node" id.toInt64]
  | .snode id _ => [.farewell "snode" id.toInt64]
  | .collection .tracked items => items.reverse.map .gone
  | _ => []

/-- Why a value refuses to be built from its arguments. -/
def refusal? : Value → Option Thrown
  | .picky t _ =>
    if t < 0 then some (.runtimeError s!"negative {t.toInt}")
    else if t = 13 then some (.slotError .capacityExceeded)
    else none
  | _ => none

/-- Why a value refuses to be copied. -/
def copyRefusal? : Value → Option Thrown
  | .picky _ v => if v = 7 then some (.runtimeError "copy refused") else none
  | _ => none

/-- What is destroyed again when construction is refused after the parts have been built. -/
def unwinding : Value → List Event
  | .picky t _ => [.gone t]
  | _ => []

def copyTransfer (v : Value) : Transfer :=
  let events : List Event := match v with
    | .tracked n | .square n | .derived n _ | .deep n _ | .picky n _ => [.copied n]
    | .collection .tracked items => items.map .copied
    | _ => []
  ⟨v, v, events⟩

/-- A value moved out of its place.  A type that cannot be moved is copied. -/
def moveTransfer (v : Value) : Transfer :=
  match v with
  | .tracked n => ⟨v, .tracked (-1), [.moved n]⟩
  | .square n => ⟨v, .square (-1), [.moved n]⟩
  | .derived t b => ⟨v, .derived (-1) b, [.moved t]⟩
  | .deep t b => ⟨v, .deep (-1) b, [.moved t]⟩
  | .string _ => ⟨v, .string "", []⟩
  | .node _ next => ⟨v, .node (-1) next.cleared, []⟩
  | .collection .tracked items => ⟨v, .collection .tracked (items.map fun _ => -1), items.map .moved⟩
  | v => v.copyTransfer

def movesByCopy : Value → Bool
  | .picky .. | .snode .. => true
  | _ => false

end Value

end SlotHandles
