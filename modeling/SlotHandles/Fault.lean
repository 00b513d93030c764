import SlotHandles.ErrorCode

/-!
# Ways a step can fail

A step of a program over slots and handles ends early when a value's code throws an exception, which the program
can survive, or when a contract is violated, which ends the program.  Violations are causes; their wording is
`Violation.message`.

Contracts are checked at two levels.  In every build these are checked: teardowns, counts, the destruction of a slot,
the value of an error, and taking a value out.  The debug checks come on top: claims, adoptions, types of stored values,
views, and all that is asked of a handle before its value is accessed.  Here both levels are on, and exceptions are
available.
-/

namespace SlotHandles

inductive Family
  | unique
  | shared
  deriving DecidableEq, Repr

def Family.label : Family → String
  | .unique => "np::unique_ptr"
  | .shared => "np::shared_ptr"

inductive Occupancy
  | empty
  | constructing
  | occupied
  | tearingDown
  deriving DecidableEq, Repr

namespace Occupancy

def index : Occupancy → Nat
  | .empty => 0
  | .constructing => 1
  | .occupied => 2
  | .tearingDown => 3

def label : Occupancy → String
  | .empty => "empty"
  | .constructing => "constructing"
  | .occupied => "occupied"
  | .tearingDown => "tearing_down"

end Occupancy

/-- A broken contract, by its cause.  `dereferencingEmpty`, `dereferencingDead`, `indexOutOfRange`, `callingEmptyView`,
`adoptingVacant`, `wrongStoredType`, `finishingUnclaimed`, `abandoningUnclaimed` and `foreignView` are found by debug
checks, the others in every build. -/
inductive Violation
  | doubleTeardown (state : Occupancy)
  | countUnderflow
  | countOverflow
  | cloningDead
  | destroyedWhileOwned
  | dereferencingEmpty (family : Family)
  | dereferencingDead (family : Family)
  | indexOutOfRange (index extent : Nat)
  | callingEmptyView
  | adoptingVacant
  | wrongStoredType
  | finishingUnclaimed
  | abandoningUnclaimed
  | takingEmpty
  | takingSlice
  | foreignView
  | valueOfError (error : ErrorCode)
  deriving DecidableEq, Repr

def Violation.message : Violation → String
  | .doubleTeardown state => s!"Double teardown: slot state is {state.index} rather than occupied."
  | .countUnderflow => "Shared reference count underflow."
  | .countOverflow => "Shared reference count overflow."
  | .cloningDead => "Cloning a shared handle whose value was already torn down."
  | .destroyedWhileOwned => "Slot destroyed while a handle still owns its value."
  | .dereferencingEmpty family => s!"Dereferencing an empty {family.label}."
  | .dereferencingDead family => s!"Dereferencing an {family.label} whose value was torn down."
  | .indexOutOfRange index extent => s!"Index {index} out of range of an array of {extent}."
  | .callingEmptyView => "Calling through an empty np::dyn."
  | .adoptingVacant => "Adopting a slot that isn't occupied."
  | .wrongStoredType => "Slot doesn't hold a value of the requested type."
  | .finishingUnclaimed => "Finishing occupation of a slot that wasn't claimed."
  | .abandoningUnclaimed => "Abandoning occupation of a slot that wasn't claimed."
  | .takingEmpty => "Taking the value of an empty np::unique_ptr."
  | .takingSlice => "Taking the value through a handle to one of its bases would slice it."
  | .foreignView => "np::dyn behaviour table doesn't belong to the slot's value."
  | .valueOfError error => s!"np::result::value() called on an error result ({error.text})"

/-- What a value's code, or a throwing factory, throws. -/
inductive Thrown
  | slotError (code : ErrorCode)
  | runtimeError (what : String)
  deriving DecidableEq, Repr

def Thrown.what : Thrown → String
  | .slotError code => code.text
  | .runtimeError what => what

/-- Why a step ended early.  `nullAccess` is an access through a null address, which no check catches. -/
inductive Failure
  | violation (cause : Violation)
  | exception (thrown : Thrown)
  | nullAccess
  deriving DecidableEq, Repr

end SlotHandles
