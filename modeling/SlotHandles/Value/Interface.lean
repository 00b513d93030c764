import SlotHandles.Datum
import SlotHandles.Fault
import SlotHandles.Value.Shown

/-!
# Calls through an interface

The operations of the interfaces and what they do to the values that have them.  An operation of a type the value
does not have leaves the value alone.
-/

namespace SlotHandles

/-- An operation of an interface.  `scale` carries its factor. -/
inductive Method
  | area
  | name
  | scale (factor : Int64)
  | next
  | peek
  deriving DecidableEq, Repr

namespace Method

def belongsTo (m : Method) : Interface → Bool
  | .shape => match m with
    | .area | .name | .scale _ => true
    | _ => false
  | .counter => match m with
    | .next | .peek => true
    | _ => false
  | .any => false

def modifies : Method → Bool
  | .scale _ | .next => true
  | _ => false

end Method

namespace Value

/-- The outcome of an operation: a result or an exception, and the value afterwards. -/
structure Called where
  result : Except Thrown Datum
  after : Value
  deriving Repr

/-- Call an operation on a value, by the operations of its own type. -/
def call (m : Method) (v : Value) : Called :=
  match v, m with
  | .circle r, .area => ⟨.ok (.longWord (3 * r * r)), v⟩
  | .circle _, .name => ⟨.ok (.text "circle"), v⟩
  | .circle r, .scale f => ⟨.ok .null, .circle (r * f)⟩
  | .rectangle w h, .area => ⟨.ok (.longWord (w * h)), v⟩
  | .rectangle .., .name => ⟨.ok (.text "rectangle"), v⟩
  | .rectangle w h, .scale f => ⟨.ok .null, .rectangle (w * f) (h * f)⟩
  | .square s, .area => ⟨.ok (.longWord (s.toInt64 * s.toInt64)), v⟩
  | .square _, .name => ⟨.ok (.text "square"), v⟩
  | .square s, .scale f => ⟨.ok .null, .square (s.toInt64 * f).toInt32⟩
  | .gadget w _, .area => ⟨.ok (.longWord w), v⟩
  | .gadget .., .name => ⟨.ok (.text "gadget"), v⟩
  | .gadget w n, .scale f => ⟨.ok .null, .gadget (w * f) n⟩
  | .ticker n, .next => ⟨.ok (.word (n + 1)), .ticker (n + 1)⟩
  | .ticker n, .peek => ⟨.ok (.word n), v⟩
  | .gadget w n, .next =>
    if n ≥ 3 then ⟨.error (.runtimeError "exhausted"), v⟩ else ⟨.ok (.word (n + 1)), .gadget w (n + 1)⟩
  | .gadget _ n, .peek => ⟨.ok (.word n), v⟩
  | v, _ => ⟨.ok .null, v⟩

end Value

end SlotHandles
