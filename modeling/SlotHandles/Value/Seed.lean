import SlotHandles.Datum
import SlotHandles.Value.Basic

/-!
# Seeds

A seed is what a construction is asked to build: a value that is not linked to any other.  `Seed.ofArguments?`
reads one from a list of arguments, and no value of the catalogue takes a handle among its arguments.
-/

namespace SlotHandles

/-- A value to be built; it stores no handle, or an empty one. -/
structure Seed where
  value : Value
  unlinked : ∀ h ∈ value.next?, h.slot = none

namespace Seed

def plain (v : Value) (h : v.next? = none := by rfl) : Seed := ⟨v, by simp [h]⟩

def type (s : Seed) : StoredType := s.value.type

def actionsOf (word : String) : List Action :=
  match word with
  | "make" => [.place (.single .int)]
  | "throw" => [.raise]
  | "teardown" => [.teardown]
  | "abandon" => [.abandon]
  | "inc" => [.addReference]
  | "dec" => [.dropReference]
  | _ => []

def word (d : Datum) : Option Int32 := d.int?.map Int32.ofInt

def longWord (d : Datum) : Option Int64 := d.int?.map Int64.ofInt

def wideWord (d : Datum) : Option UInt64 := d.int?.map UInt64.ofInt

/-- A collection of the given numbers, each as a value of the item type. -/
def ofItems (i : Item) (items : List Int32) : Seed := plain (.collection i (items.map i.cut))

def ofNode (id : Int32) : Seed :=
  ⟨.node id Value.endOfChain, by simp [Value.next?, Value.endOfChain, Handle.empty]⟩

def ofSharedNode (id : Int32) : Seed :=
  ⟨.snode id Value.endOfSharedChain, by simp [Value.next?, Value.endOfSharedChain, Handle.empty]⟩

/-- The value of a type that the arguments ask for. -/
def ofArguments? (t : StoredType) (args : List Datum) : Option Seed :=
  match t, args with
  | .collection i n, args => do
    let items ← args.mapM word
    if items.length = n then some (ofItems i items) else none
  | .single .string, [d] => do return plain (.string (← d.text?))
  | .single .wide, [a, b] => do return plain (.wide (← wideWord a) (← wideWord b))
  | .single .both, [a, b] => do return plain (.both (← word a).toInt64 (← word b).toInt64)
  | .single .rectangle, [a, b] => do return plain (.rectangle (← longWord a) (← longWord b))
  | .single .gadget, [a, b] => do return plain (.gadget (← longWord a) (← word b))
  | .single .probe, [d, .text b, .text e] => do
    return plain (.probe (← word d) (actionsOf b) ((actionsOf e).filter (· ≠ .raise)))
  | .single k, [d] => do
    let n ← word d
    match k with
    | .int => some (plain (.int n))
    | .u8 => some (plain (.u8 (UInt8.ofInt n.toInt)))
    | .big => some (plain (.big n))
    | .tracked => some (plain (.tracked n))
    | .base => some (plain (.base n))
    | .derived => some (plain (.derived (n + 1) n))
    | .diff => some (plain (.diff n))
    | .deep => some (plain (.deep (n + 1) n))
    | .left => some (plain (.left n.toInt64))
    | .right => some (plain (.right n.toInt64))
    | .circle => do return plain (.circle (← longWord d))
    | .square => some (plain (.square n))
    | .ticker => some (plain (.ticker n))
    | .picky => some (plain (.picky n n))
    | .node => some (ofNode n)
    | .snode => some (ofSharedNode n)
    | .vault => some (plain (.vault ⟨BitVec.ofInt 32 n.toInt⟩ ⟨0⟩))
    | _ => none
  | _, _ => none

end Seed

end SlotHandles
