import SlotHandles.Ty.Conversion

/-!
# Stored types

The types a slot can hold: a kind of the catalogue, or a collection of any extent over one of four item types.
Each has a size, an alignment and a name, and says whether its values can be copied or moved.
-/

namespace SlotHandles

inductive Item
  | int
  | constInt
  | u8
  | tracked
  deriving DecidableEq, Repr

namespace Item

def ty : Item → Ty
  | .int => .ofKind .int
  | .constInt => .plain ⟨true, false⟩ (.kind .int)
  | .u8 => .ofKind .u8
  | .tracked => .ofKind .tracked

/-- The bytes of one item, also the alignment of an item. -/
def width : Item → Nat
  | .u8 => 1
  | _ => 4

def name : Item → String
  | .int => "int"
  | .constInt => "const int"
  | .u8 => "u8"
  | .tracked => "tracked"

/-- A number as a value of the item type: a byte has only the lowest eight bits. -/
def cut : Item → Int32 → Int32
  | .u8, n => n &&& 0xff
  | _, n => n

end Item

/-- A type that a slot can hold. -/
inductive StoredType
  | single (k : Kind)
  | collection (item : Item) (extent : Nat)
  deriving DecidableEq, Repr

namespace StoredType

def ty : StoredType → Ty
  | .single k => .ofKind k
  | .collection item extent => .fixed .none item.ty extent

/-- Size and alignment.  A collection without items still takes one byte. -/
def layout : StoredType → Layout
  | .single k => k.layout
  | .collection _ 0 => ⟨1, 1⟩
  | .collection item (n + 1) => ⟨(n + 1) * item.width, item.width⟩

def size (t : StoredType) : Nat := t.layout.size

def alignment (t : StoredType) : Nat := t.layout.alignment

def name : StoredType → String
  | .single k => k.name
  | .collection item extent => s!"array<{item.name},{extent}>"

/-- Values of the type can be moved or copied out of their place. -/
def movable : StoredType → Bool
  | .single .probe | .single .vault => false
  | _ => true

def copyable : StoredType → Bool
  | .single .node => false
  | t => t.movable

/-- The stored type with the identity of a type, if there is one. -/
def ofTy? (t : Ty) : Option StoredType :=
  match t.identity with
  | .plain _ (.kind k) => some (.single k)
  | .fixed _ item extent =>
    ([.int, .constInt, .u8, .tracked] : List Item).findSome? fun i =>
      if i.ty = item then some (.collection i extent) else none
  | _ => none

def collections : List StoredType :=
  [.collection .int 4, .collection .int 1, .collection .int 0, .collection .constInt 2, .collection .u8 3,
    .collection .tracked 2]

def catalogue : List StoredType := Kind.all.map .single ++ collections

theorem size_pos (t : StoredType) : 0 < t.size := by
  cases t with
  | single k => exact k.size_pos
  | collection item extent => cases extent <;> cases item <;> simp [size, layout, Item.width]

end StoredType

end SlotHandles
