/-!
# Types

The types that values, handles and views are described with.  `Kind` lists the types of the value catalogue that
are not arrays, `Leaf` adds the types that only occur in questions about conversions, and `Ty` builds qualified
types, pointers, fixed collections, blocks (with or without an extent), views and references over them.

Qualifiers of a block are those of its items, so `Ty.quals`, `Ty.unqualified` and `Ty.qualify` look through blocks.
-/

namespace SlotHandles

/-- The value types of the catalogue that are not collections. -/
inductive Kind
  | int | u8 | wide | big | string | tracked
  | base | derived | diff | deep | left | right | both
  | circle | rectangle | square | ticker | gadget
  | picky | probe | node | snode | vault
  deriving DecidableEq, Repr

namespace Kind

def all : List Kind :=
  [.int, .u8, .wide, .big, .string, .tracked, .base, .derived, .diff, .deep, .left, .right, .both, .circle,
    .rectangle, .square, .ticker, .gadget, .picky, .probe, .node, .snode, .vault]

def name : Kind → String
  | .int => "int" | .u8 => "u8" | .wide => "wide" | .big => "big" | .string => "string" | .tracked => "tracked"
  | .base => "Base" | .derived => "Derived" | .diff => "Diff" | .deep => "Deep"
  | .left => "Left" | .right => "Right" | .both => "Both"
  | .circle => "circle" | .rectangle => "rectangle" | .square => "square" | .ticker => "ticker"
  | .gadget => "gadget" | .picky => "picky" | .probe => "probe" | .node => "node" | .snode => "snode"
  | .vault => "vault"

end Kind

/-- A type without parts and without qualifiers.  `hidden` derives from `Base` privately; `twice` derives from
`twiceA` and `twiceB`, each of which derives from `Base`; `abstract` has no values of its own. -/
inductive Leaf
  | void | unsigned | double | hidden | twiceA | twiceB | twice | abstract
  | kind (k : Kind)
  deriving DecidableEq, Repr

/-- The interfaces a view can have.  Every type satisfies `any`. -/
inductive Interface
  | shape
  | counter
  | any
  deriving DecidableEq, Repr

structure Qualifiers where
  isConst : Bool
  isVolatile : Bool
  deriving DecidableEq, Repr

namespace Qualifiers

def none : Qualifiers := ⟨false, false⟩

def union (p q : Qualifiers) : Qualifiers := ⟨p.isConst || q.isConst, p.isVolatile || q.isVolatile⟩

/-- Every qualifier of `p` is one of `q`. -/
def within (p q : Qualifiers) : Bool := (!p.isConst || q.isConst) && (!p.isVolatile || q.isVolatile)

end Qualifiers

/-- A type: a qualified leaf, a pointer, a fixed collection, a block of items, a view or a reference. -/
inductive Ty
  | plain (q : Qualifiers) (leaf : Leaf)
  | pointer (q : Qualifiers) (target : Ty)
  | fixed (q : Qualifiers) (item : Ty) (extent : Nat)
  | block (item : Ty) (extent : Option Nat)
  | view (q : Qualifiers) (face : Interface)
  | reference (target : Ty)
  deriving DecidableEq, Repr

namespace Ty

def ofKind (k : Kind) : Ty := .plain .none (.kind k)

/-- The qualifiers of a type, those of the items for a block. -/
def quals : Ty → Qualifiers
  | .plain q _ | .pointer q _ | .fixed q _ _ | .view q _ => q
  | .block item _ => item.quals
  | .reference _ => .none

/-- The type without its outermost qualifiers. -/
def unqualified : Ty → Ty
  | .plain _ leaf => .plain .none leaf
  | .pointer _ target => .pointer .none target
  | .fixed _ item extent => .fixed .none item extent
  | .block item extent => .block item.unqualified extent
  | .view _ face => .view .none face
  | .reference target => .reference target

/-- The type with more outermost qualifiers.  A reference has none. -/
def qualify (p : Qualifiers) : Ty → Ty
  | .plain q leaf => .plain (p.union q) leaf
  | .pointer q target => .pointer (p.union q) target
  | .fixed q item extent => .fixed (p.union q) item extent
  | .block item extent => .block (item.qualify p) extent
  | .view q face => .view (p.union q) face
  | .reference target => .reference target

/-- The type a reference refers to, and any other type itself. -/
def withoutReference : Ty → Ty
  | .reference target => target
  | t => t

def face? : Ty → Option Interface
  | .view _ face => some face
  | _ => none

def isView (t : Ty) : Bool := t.face?.isSome

def isBlock : Ty → Bool
  | .block .. => true
  | _ => false

def isReference : Ty → Bool
  | .reference _ => true
  | _ => false

/-- What identifies a type among stored types: qualifiers do not count. -/
def identity (t : Ty) : Ty := t.unqualified

end Ty

end SlotHandles
