import SlotHandles.Datum
import SlotHandles.World

/-!
# Replies

What a step of a session answers: what can be seen of a handle or a view without checks, and one reply for each
kind of step.
-/

namespace SlotHandles

/-- What `get` on a handle shows: an address, or for a view only whether there is one. -/
inductive GetInfo
  | place (a : Option Address)
  | flag (b : Bool)
  deriving DecidableEq, Repr

structure Info where
  has : Bool
  slot : Option SlotId
  place : Option Address
  element : GetInfo
  count : Option Nat
  size : Option Nat
  deriving DecidableEq, Repr

def World.info (w : World) (h : Handle) : Info where
  has := h.isSome
  slot := h.slot
  place := h.ref.address
  element := if h.elem.isView then .flag h.ref.isSome else .place h.ref.address
  count := match h.family with
    | .unique => none
    | .shared => some (w.useCount h)
  size := if h.elem.isBlock then some h.ref.extent else none

/-- Why a step is not carried out: it is not understood, the types do not allow it, or it is not provided. -/
inductive Refusal
  | badInput
  | rejected
  | unsupported
  deriving DecidableEq, Repr

/-- How two handles compare.  Handles in static slots have no order. -/
structure Comparison where
  equal : Bool
  order : Option Ordering
  owners : Bool
  deriving DecidableEq, Repr

inductive Reply
  | null
  | bool (b : Bool)
  | number (n : Nat)
  | datum (d : Datum)
  | info (i : Info)
  | infoPair (a b : Info)
  | made (i : Info) (argument : Option Datum)
  | error (e : ErrorCode) (argument : Option Datum)
  | hasValue (b : Bool)
  | result (e : ErrorCode)
  | place (a : Option Address)
  | span (size : Nat) (items : List Int32) (a : Option Address)
  | taken (value : Datum) (next : Option Info)
  | nullComparison (order : Ordering)
  | stream (a : Option Address)
  | view (v : View)
  | numbers (ns : List Int32)
  | swapped (done : Bool) (expected : Datum)
  | comparison (c : Comparison)
  | hash (same isNull : Bool)
  | owners (items : List (Option SlotId × Nat × Nat))
  | slot (occupied : Bool) (capacity : Nat)
  | placed (value : Option (Datum × Address)) (last : ErrorCode) (argument : Option Datum)
  | stored (value : Datum) (a : Address)
  | refused (r : Refusal)
  | thrown (t : Thrown)

end SlotHandles
