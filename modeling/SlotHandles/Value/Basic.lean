import SlotHandles.Cell
import SlotHandles.Handle

/-!
# Values

The values of the catalogue.  Numbers are machine words: 64 bits for lengths, wide words and the fields of `Left`
and `Right`, and 32 bits for all others.  A `node` and an `snode` store an owning handle to the next value, a `vault`
stores cells, and a `probe` stores what it does to the control block of its own slot while it is built and while it
is destroyed.
-/

namespace SlotHandles

/-- What a probe does to the slot it lives in. -/
inductive Action
  | place (type : StoredType)
  | tryClaim
  | publish (type : StoredType)
  | abandon
  | teardown
  | addReference
  | dropReference
  | raise
  deriving DecidableEq, Repr

inductive Value
  | int (n : Int32)
  | u8 (n : UInt8)
  | wide (a b : UInt64)
  | big (n : Int32)
  | string (s : String)
  | tracked (n : Int32)
  | base (b : Int32)
  | derived (t b : Int32)
  | diff (b : Int32)
  | deep (t b : Int32)
  | left (l : Int64)
  | right (r : Int64)
  | both (l r : Int64)
  | circle (radius : Int64)
  | rectangle (width height : Int64)
  | square (side : Int32)
  | ticker (n : Int32)
  | gadget (width : Int64) (n : Int32)
  | picky (t v : Int32)
  | probe (id : Int32) (onBuild onDestroy : List Action)
  | node (id : Int32) (next : Handle)
  | snode (id : Int32) (next : Handle)
  | vault (hits : Cell 32) (closed : Cell 8)
  | collection (item : Item) (items : List Int32)
  deriving DecidableEq, Repr

namespace Value

def type : Value → StoredType
  | .int _ => .single .int
  | .u8 _ => .single .u8
  | .wide .. => .single .wide
  | .big _ => .single .big
  | .string _ => .single .string
  | .tracked _ => .single .tracked
  | .base _ => .single .base
  | .derived .. => .single .derived
  | .diff _ => .single .diff
  | .deep .. => .single .deep
  | .left _ => .single .left
  | .right _ => .single .right
  | .both .. => .single .both
  | .circle _ => .single .circle
  | .rectangle .. => .single .rectangle
  | .square _ => .single .square
  | .ticker _ => .single .ticker
  | .gadget .. => .single .gadget
  | .picky .. => .single .picky
  | .probe .. => .single .probe
  | .node .. => .single .node
  | .snode .. => .single .snode
  | .vault .. => .single .vault
  | .collection item items => .collection item items.length

def next? : Value → Option Handle
  | .node _ next | .snode _ next => some next
  | _ => none

def withNext (h : Handle) : Value → Value
  | .node id _ => .node id h
  | .snode id _ => .snode id h
  | v => v

/-- The empty handle of a node that is linked to nothing. -/
def endOfChain : Handle := .empty .unique (.ofKind .node)

/-- The empty handle of a shared node that is linked to nothing. -/
def endOfSharedChain : Handle := .empty .shared (.ofKind .snode)

/-- The value of a type whose parts are all zero. -/
def blank : StoredType → Value
  | .single .int => .int 0
  | .single .u8 => .u8 0
  | .single .wide => .wide 0 0
  | .single .big => .big 0
  | .single .string => .string ""
  | .single .tracked => .tracked 0
  | .single .base => .base 0
  | .single .derived => .derived 0 0
  | .single .diff => .diff 0
  | .single .deep => .deep 0 0
  | .single .left => .left 0
  | .single .right => .right 0
  | .single .both => .both 0 0
  | .single .circle => .circle 0
  | .single .rectangle => .rectangle 0 0
  | .single .square => .square 0
  | .single .ticker => .ticker 0
  | .single .gadget => .gadget 0 0
  | .single .picky => .picky 0 0
  | .single .probe => .probe 0 [] []
  | .single .node => .node 0 endOfChain
  | .single .snode => .snode 0 endOfSharedChain
  | .single .vault => .vault ⟨0⟩ ⟨0⟩
  | .collection item n => .collection item (List.replicate n 0)

@[simp] theorem type_blank (t : StoredType) : (blank t).type = t := by
  cases t with
  | single k => cases k <;> rfl
  | collection item n => simp [blank, type]

@[simp] theorem type_withNext (h : Handle) (v : Value) : (v.withNext h).type = v.type := by
  cases v <;> rfl

theorem withNext_withNext (v : Value) (a b : Handle) : (v.withNext a).withNext b = v.withNext b := by
  cases v <;> rfl

end Value

end SlotHandles
