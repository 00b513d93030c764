import SlotHandles.Cell.Format
import SlotHandles.Placement
import SlotHandles.Value.Interface

/-!
# Steps of a session

A session is a program over slots and handles, written as a list of steps.  Handles, results, values and views have
names; a step that stores into a name replaces what the name stood for.
-/

namespace SlotHandles

/-- How the value of a new handle is built: from arguments, or from a temporary that is moved from or copied. -/
inductive Via
  | arguments
  | moving
  | copying
  deriving DecidableEq, Repr

inductive Mode
  | move
  | copy
  deriving DecidableEq, Repr

/-- What is asked of a result through its value. -/
inductive ResultAccess
  | take (into : String)
  | value
  | arrow
  deriving DecidableEq, Repr

/-- Which cell of a vault is meant. -/
inductive VaultField
  | hits
  | closed
  deriving DecidableEq, Repr

/-- What is asked of a cell, in numbers. -/
inductive VaultRequest
  | read
  | write (a : Int)
  | exchange (a : Int)
  | compareAndSwap (a b : Int)
  deriving DecidableEq, Repr

/-- A direct call on the control block of a slot. -/
inductive ControlCall
  | tryClaim
  | publish
  | abandon
  | teardown
  | addReference
  | dropReference
  | poke (count : UInt32)
  deriving DecidableEq, Repr

inductive Step
  | make (h : String) (slot : SlotId) (family : Family) (elem : Ty) (seed : Seed) (via : Via) (throwing : Bool)
  | tryMake (r : String) (slot : SlotId) (family : Family) (elem : Ty) (seed : Seed)
  | makeStatic (h : String) (site : Nat) (argument : Int)
  | empty (h : String) (family : Family) (elem : Ty)
  | adopt (h : String) (slot : SlotId) (family : Family) (type : Ty)
  | resultInfo (r : String)
  | resultAccess (r : String) (access : ResultAccess)
  | resultDrop (r : String)
  | info (h : String)
  | drop (h : String)
  | reset (h : String)
  | cloneMany (h : String) (n : Nat)
  | bagDrop (n : Nat)
  | dereference (h : String)
  | assignField (h : String) (value : Datum)
  | index (h : String) (i : Nat)
  | setIndex (h : String) (i : Nat) (value : Datum)
  | span (h : String)
  | take (h : String)
  | cast (h into : String) (type : Ty) (mode : Mode)
  | compareNull (h : String)
  | stream (h : String)
  | call (h : String) (method : Method)
  | viewOf (h : String)
  | reseat (h view : String)
  | link (h child : String) (mode : Mode)
  | next (h into : String) (mode : Mode)
  | pop (h : String)
  | ids (h : String)
  | vaultCell (h : String) (field : VaultField) (request : VaultRequest)
  | construct (h source : String) (elem : Option Ty) (mode : Mode)
  | assign (h source : String) (mode : Mode)
  | swap (h source : String)
  | compare (h source : String)
  | hash (h source : String)
  | ownerSet (handles : List String)
  | value (v : String) (seed : Seed)
  | valueGet (v : String)
  | viewValue (view : String) (face : Interface) (v : String)
  | viewEmpty (view : String) (face : Interface)
  | viewCopy (view into : String)
  | viewInfo (view : String)
  | viewCall (view : String) (method : Method) (isConst : Bool)
  | slot (slot : SlotId)
  | slotDestroy (slot : SlotId)
  | control (slot : SlotId) (call : ControlCall)
  | place (slot : SlotId) (seed : Seed) (via : Via)
  | stored (slot : SlotId) (type : Ty)

end SlotHandles
