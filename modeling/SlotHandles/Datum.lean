/-!
# Data

Plain data: arguments that values are built from, and values as they are shown.
-/

namespace SlotHandles

inductive Datum
  | null
  | bool (b : Bool)
  | int (n : Int)
  | text (s : String)
  | list (items : List Datum)
  deriving Inhabited, Repr

namespace Datum

/-- A whole number, given as such or in decimal digits. -/
def int? : Datum → Option Int
  | .int n => some n
  | .text s => s.toInt?
  | _ => none

def text? : Datum → Option String
  | .text s => some s
  | _ => none

/-- A truth value, given as such or as a number that is not zero. -/
def bool? : Datum → Option Bool
  | .bool b => some b
  | .int n => some (n ≠ 0)
  | _ => none

end Datum

end SlotHandles
