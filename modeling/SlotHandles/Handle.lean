import SlotHandles.Fault
import SlotHandles.Ty.Stored

/-!
# Handles

An owning handle names the slot it owns a value in and refers to its element: by an address, by a view through an
interface, or by the first item and the number of items of a collection.  Handles, views and references are plain
data here; what owning means is the matter of `SlotHandles.Ownership`.
-/

namespace SlotHandles

/-- The name of a slot: one of the numbered slots, or one of the static ones, which are never destroyed. -/
inductive SlotId
  | numbered (n : Nat)
  | static (n : Nat)
  deriving DecidableEq, Repr

namespace SlotId

def label : SlotId → String
  | .numbered n => toString n
  | .static n => s!"s{n}"

def isStatic : SlotId → Bool
  | .numbered _ => false
  | .static _ => true

/-- The order of the slots: the numbered ones, then the static ones. -/
def compare : SlotId → SlotId → Ordering
  | .numbered m, .numbered n => Ord.compare m n
  | .numbered _, .static _ => .lt
  | .static _, .numbered _ => .gt
  | .static m, .static n => Ord.compare m n

/-- The order of optional slots: none comes first. -/
def compareOptional : Option SlotId → Option SlotId → Ordering
  | none, none => .eq
  | none, some _ => .lt
  | some _, none => .gt
  | some a, some b => a.compare b

theorem compare_eq_iff {s t : SlotId} : s.compare t = .eq ↔ s = t := by
  cases s <;> cases t <;> simp [compare]

theorem compareOptional_eq_iff {a b : Option SlotId} : compareOptional a b = .eq ↔ a = b := by
  cases a <;> cases b <;> simp [compareOptional, compare_eq_iff]

end SlotId

/-- What an address points into: the storage of a slot, or a value of the program's own. -/
inductive Region
  | slot (id : SlotId)
  | named (name : String)
  deriving DecidableEq, Repr

structure Address where
  region : Region
  offset : Nat
  deriving DecidableEq, Repr

namespace Address

def startOf (s : SlotId) : Address := ⟨.slot s, 0⟩

def move (a : Address) (bytes : Nat) : Address := { a with offset := a.offset + bytes }

end Address

/-- A view of a value through an interface: where the value is, the type whose operations are called, and the type
the value is said to have.  A view without operations is empty. -/
structure View where
  data : Option Address
  table : Option StoredType
  type : Option StoredType
  deriving DecidableEq, Repr

namespace View

def empty : View := ⟨none, none, none⟩

def of (a : Address) (t : StoredType) : View := ⟨some a, some t, some t⟩

def isSome (v : View) : Bool := v.table.isSome

end View

/-- How a handle refers to its element. -/
inductive Referent
  | object (target : Option Address)
  | view (v : View)
  | items (first : Option Address) (extent : Nat)
  deriving DecidableEq, Repr

namespace Referent

def empty (elem : Ty) : Referent :=
  match elem with
  | .view .. => .view .empty
  | .block .. => .items none 0
  | _ => .object none

def address : Referent → Option Address
  | .object target => target
  | .view v => v.data
  | .items first _ => first

def isSome : Referent → Bool
  | .object target => target.isSome
  | .view v => v.isSome
  | .items first _ => first.isSome

def extent : Referent → Nat
  | .items _ n => n
  | _ => 0

/-- The reference that a handle of element type `elem` keeps for a value of type `stored` built in the slot.  A
collection without items has no first item. -/
def toValue (elem : Ty) (stored : StoredType) (s : SlotId) : Referent :=
  match elem, stored with
  | .view .., _ => .view (.of (.startOf s) stored)
  | .block .., .collection _ 0 => .items none 0
  | .block .., .collection _ n => .items (some (.startOf s)) n
  | _, _ => .object (some ((Address.startOf s).move ((stored.ty.conversion? elem).getD 0)))

/-- The reference after a change of the element type from `source` to `target`. -/
def convert (source target : Ty) (r : Referent) : Referent :=
  .object (r.address.map (·.move ((source.conversion? target).getD 0)))

end Referent

/-- An owning handle.  It is empty exactly if it names no slot. -/
structure Handle where
  family : Family
  elem : Ty
  slot : Option SlotId
  ref : Referent
  deriving DecidableEq, Repr

namespace Handle

def empty (family : Family) (elem : Ty) : Handle := ⟨family, elem, none, .empty elem⟩

def isSome (h : Handle) : Bool := h.slot.isSome

/-- The handle with its slot and its reference let go. -/
def cleared (h : Handle) : Handle := .empty h.family h.elem

/-- The handle as one of another element type. -/
def convert (target : Ty) (h : Handle) : Handle :=
  if h.elem = target then h
  else { h with elem := target, ref := h.ref.convert h.elem target }

/-- The order of two handles is the order of the slots they own. -/
def compare (a b : Handle) : Ordering := SlotId.compareOptional a.slot b.slot

@[simp] theorem slot_cleared (h : Handle) : h.cleared.slot = none := rfl

@[simp] theorem family_cleared (h : Handle) : h.cleared.family = h.family := rfl

@[simp] theorem elem_cleared (h : Handle) : h.cleared.elem = h.elem := rfl

@[simp] theorem slot_convert (target : Ty) (h : Handle) : (h.convert target).slot = h.slot := by
  unfold convert
  split <;> rfl

@[simp] theorem family_convert (target : Ty) (h : Handle) : (h.convert target).family = h.family := by
  unfold convert
  split <;> rfl

@[simp] theorem elem_convert (target : Ty) (h : Handle) : (h.convert target).elem = target := by
  unfold convert
  split
  · assumption
  · rfl

end Handle

end SlotHandles
