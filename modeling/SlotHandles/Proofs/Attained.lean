import SlotHandles.Proofs.Overwriting
import SlotHandles.Proofs.Steps

/-!
# Handle programs with assignments of every kind

`Reachable` leaves out the assignments that tear down a value with their own target or source in it.  `Attained` has
them too.  Then a handle may be lost in the storage of a dead value, and what it owns lives on: the worlds are sound up
to the handles that were lost (`Attained.sound`).  So a live handle still refers to a live value, and to the right one.
-/

namespace SlotHandles

/-- The worlds of a handle program over the given slots, before its first step and after each completed one, whatever
its assignments tear down. -/
inductive Attained (slots : Table SlotId Slot) : World → Prop
  | start : Attained slots (.ofSlots slots)
  | step {w w' : World} (st : HandleStep) : Attained slots w → st.Admissible w → st.Completes w w' → Attained slots w'

variable {slots : Table SlotId Slot} {w w' : World} {st : HandleStep} {M : Multiset Handle}

theorem Reachable.attained (hr : Reachable slots w) : Attained slots w := by
  induction hr with
  | start => exact .start
  | step st _ ha hc _ ih => exact .step st ih ha hc

/-- What holds whenever a step does not end in a violation holds when it completes. -/
theorem HandleStep.Completes.of_ends {good : World → Prop} (hc : st.Completes w w')
    (h : Ends st.run w (fun _ u => good u) (fun f _ => ∃ v, f = .violation v)) : good w' := by
  rcases hc with ⟨a, hrun⟩ | ⟨t, hrun⟩
  · exact h.ok hrun
  · obtain ⟨v, hv⟩ := h.error hrun
    cases hv

/-- A step loses nothing but the exclusive handle that an assignment writes to a dead value. -/
theorem HandleStep.Completes.loses (hc : st.Completes w w') (hw : w.Sound M) (ha : st.Admissible w) :
    (∃ lost, w'.Sound (lost + M) ∧ ∀ k ∈ lost, k.family = .unique) ∧ w.Evolves w' := by
  have hnothing : w'.Sound M → ∃ lost, w'.Sound (lost + M) ∧ ∀ k ∈ lost, k.family = .unique := fun hw' =>
    ⟨0, by simpa using hw', by simp⟩
  -- a step that assigns no handle loses none
  have hother : st.assigned = [] →
      (∃ lost, w'.Sound (lost + M) ∧ ∀ k ∈ lost, k.family = .unique) ∧ w.Evolves w' := by
    intro hnone
    obtain ⟨hw', hev⟩ := hc.sound hw ha (HandleStep.undisturbed_of_assigned hnone)
    exact ⟨hnothing hw', hev⟩
  cases st with
  | assignByMove target source =>
    obtain ⟨old, h, ht, hs, hf, hcv⟩ := ha
    have hends : Ends (HandleStep.assignByMove target source).run w
        (fun _ u => (∃ lost, u.Sound (lost + M) ∧ ∀ k ∈ lost, k.family = .unique) ∧ w.Evolves u)
        (fun f _ => ∃ v, f = .violation v) := by
      unfold HandleStep.run
      rw [ends_bind]
      exact assignByMove_loses hw ht hs hf hcv
    exact hc.of_ends hends
  | assignByCopy target source =>
    obtain ⟨old, h, ht, hs, hfo, hfh, hcv⟩ := ha
    have hends : Ends (HandleStep.assignByCopy target source).run w (fun _ u => u.Sound M ∧ w.Evolves u)
        (fun f _ => ∃ v, f = .violation v) := by
      unfold HandleStep.run
      rw [ends_bind]
      exact assignByCopy_keeps hw ht hs hfo hfh hcv
    obtain ⟨hw', hev⟩ := hc.of_ends hends
    exact ⟨hnothing hw', hev⟩
  | _ => exact hother rfl

/-- In every world of a handle program the slots are balanced with its handles and the lost ones, which are exclusive,
and no slot is left in the middle of an operation. -/
theorem Attained.sound_but_lost (hs : AllEmpty slots) (hr : Attained slots w) :
    (∃ lost, w.Sound lost ∧ ∀ k ∈ lost, k.family = .unique) ∧ w.Stable := by
  induction hr with
  | start => exact ⟨⟨0, hs.sound.1, by simp⟩, hs.sound.2⟩
  | step st _ ha hc ih =>
    obtain ⟨⟨lost, hw, hlost⟩, hst⟩ := ih
    obtain ⟨⟨more, hw', hmore⟩, hev⟩ := hc.loses hw ha
    refine ⟨⟨_, hw', ?_⟩, hev.stable hst⟩
    intro k hk
    rcases Multiset.mem_add.mp hk with hk | hk
    · exact hmore k hk
    · exact hlost k hk

theorem Attained.sound (hs : AllEmpty slots) (hr : Attained slots w) : (∃ lost, w.Sound lost) ∧ w.Stable := by
  obtain ⟨⟨lost, hw, -⟩, hst⟩ := hr.sound_but_lost hs
  exact ⟨⟨lost, hw⟩, hst⟩

end SlotHandles
