import SlotHandles.Datum
import SlotHandles.Value.Basic

/-!
# Values as they are shown

The data a value is shown as.  A polymorphic value is shown with the name of the type it is looked at through (its
own for a chain of single bases), the value its computed function computes, and its fields.
-/

namespace SlotHandles

namespace Datum

def word (n : Int32) : Datum := .int n.toInt

def longWord (n : Int64) : Datum := .int n.toInt

def wideWord (n : UInt64) : Datum := .text (toString n.toNat)

end Datum

namespace Value

/-- What the computed function of a polymorphic value computes, from the fields widened to 64 bits. -/
def computed : Value → Int64
  | .base b => b.toInt64
  | .derived t _ => 10 * t.toInt64
  | .diff b => -b.toInt64
  | .deep t _ => 100 * t.toInt64
  | .left l => l
  | .right r => r
  | .both l r => 1000 * l + r
  | _ => 0

/-- A value as shown; `count` tells how many handles share the value of a slot. -/
def shown (count : SlotId → Nat) (v : Value) : Datum :=
  match v with
  | .int n | .big n | .tracked n | .square n | .ticker n => .word n
  | .u8 n => .int n.toNat
  | .wide a b => .list [.wideWord a, .wideWord b]
  | .string s => .text s
  | .base b => .list [.text "Base", .longWord v.computed, .word b]
  | .derived _ b => .list [.text "Derived", .longWord v.computed, .word b]
  | .diff b => .list [.text "Diff", .longWord v.computed, .word b]
  | .deep _ b => .list [.text "Deep", .longWord v.computed, .word b]
  | .left l => .list [.text "Left", .longWord v.computed, .longWord l]
  | .right r => .list [.text "Right", .longWord v.computed, .longWord r]
  | .both l r => .list [.text "Both", .longWord v.computed, .longWord l, .longWord r]
  | .circle r => .longWord r
  | .rectangle w h => .list [.longWord w, .longWord h]
  | .gadget w n => .list [.longWord w, .word n]
  | .picky t v => .list [.word t, .word v]
  | .probe id _ _ => .word id
  | .node id next => .list [.word id, .bool next.isSome]
  | .snode id next =>
    .list [.word id, .bool next.isSome, .int (match next.slot with | some s => count s | none => 0)]
  | .vault hits closed => .list [.int hits.read.toInt, .bool (closed.read ≠ 0)]
  | .collection _ items => .list (items.map .word)

/-- A value as shown when it is looked at as an object of type `elem`: one side of a `both` hides the other. -/
def shownAs (count : SlotId → Nat) (elem : Ty) (v : Value) : Datum :=
  match elem.unqualified, v with
  | .plain _ (.kind .left), .both l _ => .list [.text "Left", .longWord v.computed, .longWord l]
  | .plain _ (.kind .right), .both _ r => .list [.text "Right", .longWord v.computed, .longWord r]
  | _, v => v.shown count

def item? (i : Nat) : Value → Option Int32
  | .collection _ items => items[i]?
  | _ => none

def setItem (i : Nat) (n : Int32) : Value → Value
  | .collection item items => .collection item (items.set i (item.cut n))
  | v => v

end Value

end SlotHandles
