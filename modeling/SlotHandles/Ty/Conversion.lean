import SlotHandles.Ty.Parts

/-!
# Conversions

When an address of one type may stand for an address of another, and by how many bytes it moves.  An address
converts to `void`, to the same type and to a base type that is reachable along exactly one accessible path; no
conversion drops a qualifier.

From this follow the two rules for handles: which element types may own a value of a stored type
(`Ty.owns`), and which handles may take over another handle (`Ty.takesOver`).
-/

namespace SlotHandles

namespace Ty

/-- The bytes an address moves by when it is converted from `source` to `target`, if it converts. -/
def conversion? (source target : Ty) : Option Nat :=
  if source.isReference || target.isReference || !source.quals.within target.quals then none
  else match source.unqualified, target.unqualified with
    | _, .plain _ .void => some 0
    | .plain _ s, .plain _ t => s.partOffset? t
    | s, t => if s = t then some 0 else none

def converts (source target : Ty) : Bool := (source.conversion? target).isSome

end Ty

namespace Interface

/-- The operations of an interface exist on the kind. -/
def hasOperations : Interface → Kind → Bool
  | .shape, k => k = .circle || k = .rectangle || k = .square || k = .gadget
  | .counter, k => k = .ticker || k = .gadget
  | .any, _ => true

/-- A type satisfies an interface.  The modifying operations of `shape` and `counter` need an unqualified
object. -/
def satisfiedBy (i : Interface) (t : Ty) : Bool :=
  match i, t with
  | .any, _ => true
  | i, .plain q (.kind k) => q = .none && i.hasOperations k
  | _, _ => false

end Interface

namespace Ty

def collectionItem? : Ty → Option Ty
  | .fixed q item _ => if q = .none then some item else none
  | _ => none

/-- A handle of this element type may own a constructed value of type `stored`: a view of an interface the value
satisfies, the open block of a collection's own item type, or a type its address converts to. -/
def owns (elem stored : Ty) : Bool :=
  if stored.isView || stored.isBlock || stored.isReference then false
  else match elem with
    | .view _ face => face.satisfiedBy stored
    | .block item none =>
      match stored.collectionItem? with
      | some i => i.unqualified = item.unqualified && i.converts item
      | none => false
    | .block _ (some _) => false
    | _ => stored.converts elem

/-- A handle of element type `target` may take over a handle of element type `source`. -/
def takesOver (target source : Ty) : Bool :=
  !target.isView && !source.isView && !target.isBlock && !source.isBlock && source.converts target

/-- Values of the types are identified alike.  A question about a reference is one about the type it refers to. -/
def sameIdentity (t u : Ty) : Bool := t.identity = u.withoutReference.identity

end Ty

end SlotHandles
