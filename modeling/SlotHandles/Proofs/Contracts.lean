import SlotHandles.Proofs.Steps

/-!
# Contracts that handles keep

Some contracts are between the operations on handles and the control blocks: that a teardown finds a value, that a
count does not go below zero, that a view belongs to the value it views.  A handle program keeps all of them.  When
one of its steps ends in a violation, then because the program looks or takes through an empty handle, takes a slice,
looks beyond the items of a handle, or shares a value too often.
-/

namespace SlotHandles

/-- The contract is one that the operations on handles have with the control blocks. -/
def Violation.isInternal : Violation → Bool
  | .doubleTeardown _ | .countUnderflow | .cloningDead | .adoptingVacant | .wrongStoredType | .finishingUnclaimed
  | .abandoningUnclaimed | .dereferencingDead _ | .callingEmptyView | .foreignView => true
  | _ => false

variable {w w' : World} {slots : Table SlotId Slot} {st : HandleStep}

theorem HandleStep.Misuses.isInternal_eq_false {v : Violation} (h : st.Misuses w v) : v.isInternal = false := by
  cases v with
  | dereferencingEmpty | indexOutOfRange | takingEmpty | takingSlice | countOverflow => rfl
  | _ => exact h.elim

/-- A step of a handle program throws what a value's constructor throws, or reports a misuse of handles.  It never
breaks an internal contract, and never follows a null address. -/
theorem only_misuse_is_reported {f : Failure} (hs : AllEmpty slots) (hr : Reachable slots w) (ha : st.Admissible w)
    (hrun : st.run w = .error f w') (hu : st.Undisturbed w w') :
    (∃ t, f = .exception t) ∨ ∃ v, f = .violation v ∧ st.Misuses w v ∧ v.isInternal = false := by
  have hfails := (step_ends st (hr.sound hs).1 ha).error hrun hu
  cases f with
  | exception t => exact .inl ⟨t, rfl⟩
  | violation v => exact .inr ⟨v, rfl, hfails, HandleStep.Misuses.isInternal_eq_false hfails⟩
  | nullAccess => exact hfails.elim

/-- The tail of the linked pair stores an empty handle, and looking through that one is a misuse. -/
theorem only_misuse_is_reported_linkedPair : AllEmpty twoSlots ∧ Reachable twoSlots linkedPair ∧
    (HandleStep.dereference (.inside (.numbered 0))).Admissible linkedPair ∧
    ∃ f, (HandleStep.dereference (.inside (.numbered 0))).run linkedPair = .error f linkedPair ∧
      ((∃ t, f = .exception t) ∨ ∃ v, f = .violation v ∧
        (HandleStep.dereference (.inside (.numbered 0))).Misuses linkedPair v ∧ v.isInternal = false) := by
  have ha : (HandleStep.dereference (.inside (.numbered 0))).Admissible linkedPair := ⟨_, rfl, rfl⟩
  exact ⟨allEmpty_twoSlots, linkedPair_reachable, ha, _, rfl, only_misuse_is_reported allEmpty_twoSlots
    linkedPair_reachable ha rfl (HandleStep.undisturbed_of_assigned rfl)⟩

end SlotHandles
