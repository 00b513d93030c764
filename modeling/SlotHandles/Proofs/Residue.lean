import SlotHandles.Proofs.Following

/-!
# The count of a slot without a value

A program may call control blocks directly, between its steps with handles.  As long as nothing is reported, each
block is somewhere on a course of its calls (`Unreported.course`), so the past of a slot tells what its count is
worth once the value is gone: it is zero if the value was torn down by the drop of its last reference, and at least one
otherwise.  An exclusive handle tears its value down without counting and leaves a count of one behind, so that a
reference that is added to the empty slot afterwards is not reported.
-/

namespace SlotHandles

open World ControlBlock ControlBlock.Course

variable {w w' : World} {s : SlotId} {slots : Table SlotId Slot}

/-- A step of a program: a step with handles, or a direct call of the control block of a slot. -/
inductive Deed
  | use (step : HandleStep)
  | call (slot : SlotId) (action : Action)

namespace Deed

def run : Deed → Act Unit
  | .use step => discard step.run
  | .call s action => performWith tearDown 0 s action

/-- The deed leads from one world to the other, and is not reported. -/
def Passes (d : Deed) (w w' : World) : Prop :=
  d.run w = .ok () w' ∨ ∃ f, d.run w = .error f w' ∧ ∀ v, f ≠ .violation v

theorem follower_run (d : Deed) : Follower d.run := by
  cases d with
  | use step => exact (SlotHandles.follower_run step).map _
  | call s action => exact follower_performWith 0 s action

theorem Passes.enters {d : Deed} (h : d.Passes w w') (hd : w.slots.Distinct) : w.Enters w' := by
  have htracked := d.follower_run w hd
  rcases h with hrun | ⟨f, hrun, hf⟩
  · exact (Ends.ok htracked hrun).enters
  · rcases Ends.error htracked hrun with ⟨v, rfl⟩ | h
    · exact absurd rfl (hf v)
    · exact h

end Deed

/-- Distinct slots, all of them new. -/
def AllNew (slots : Table SlotId Slot) : Prop :=
  (slots.map Prod.fst).Nodup ∧ ∀ e ∈ slots, e.2.control = .fresh e.2.control.address e.2.control.capacity

/-- The worlds of a program over the given slots of which nothing was reported so far. -/
inductive Unreported (slots : Table SlotId Slot) : World → Prop
  | start : Unreported slots (.ofSlots slots)
  | step {w w' : World} (d : Deed) : Unreported slots w → d.Passes w w' → Unreported slots w'

theorem AllNew.controlOf (hs : AllNew slots) (hx : (slots.find? s).isSome) :
    ∃ address capacity, (World.ofSlots slots).controlOf s = .fresh address capacity := by
  obtain ⟨slot, hf⟩ := Option.isSome_iff_exists.mp hx
  refine ⟨slot.control.address, slot.control.capacity, ?_⟩
  have hnew := hs.2 _ (Table.mem_of_find?_eq_some hf)
  unfold World.controlOf World.ofSlots
  dsimp only
  rw [hf]
  exact hnew

theorem Unreported.enters (hs : AllNew slots) (hr : Unreported slots w) : (World.ofSlots slots).Enters w := by
  induction hr with
  | start => exact (Follows.refl _).enters
  | step d _ hd ih => exact ih.trans (hd.enters (distinct_of_keys ih.keys hs.1))

/-- As long as nothing is reported, every block is somewhere on a course of its own calls. -/
theorem Unreported.course (hs : AllNew slots) (hr : Unreported slots w) (hx : (w.slots.find? s).isSome) :
    ∃ address capacity calls c,
      performAll calls (Course.start address capacity) = .ok () c ∧ c.block = w.controlOf s := by
  have henters := hr.enters hs
  have hx' : (slots.find? s).isSome := by rwa [isSome_find?_of_keys henters.keys] at hx
  obtain ⟨address, capacity, hnew⟩ := hs.controlOf hx'
  obtain ⟨calls, hcalls⟩ := henters.enters s hx'
  obtain ⟨c, hc, hb⟩ := hcalls (Course.start address capacity) hnew.symm
  exact ⟨address, capacity, calls, c, hc, hb⟩

/-! ### What is reported of a slot without a value -/

theorem addReference_reports_iff :
    (∃ w', onControl s ControlBlock.addReference w = .error (.violation .cloningDead) w') ↔
      (w.controlOf s).count = 0 := by
  have happly := ControlBlock.addReference_apply (w.controlOf s)
  by_cases h0 : (w.controlOf s).count = 0
  · rw [if_pos h0] at happly
    exact iff_of_true ⟨_, onControl_error happly⟩ h0
  rw [if_neg h0] at happly
  refine iff_of_false ?_ h0
  rintro ⟨w', hw'⟩
  split at happly
  · rw [onControl_error happly] at hw'
    cases hw'
  · rw [onControl_ok happly] at hw'
    cases hw'

theorem dropReference_reports_iff (hv : (w.controlOf s).state ≠ .occupied) :
    (∃ w', dropWith tearDown s w = .error (.violation .countUnderflow) w') ↔ (w.controlOf s).count = 0 := by
  rw [dropWith_apply]
  by_cases h0 : (w.controlOf s).count = 0
  · rw [if_pos h0]
    exact iff_of_true ⟨_, rfl⟩ h0
  rw [if_neg h0]
  refine iff_of_false ?_ h0
  rintro ⟨w', hw'⟩
  split at hw'
  -- the last reference was dropped, but there is no value to tear down
  · have hidle := state_setControl_ne_occupied (c := { w.controlOf s with count := (w.controlOf s).count - 1 }) w s hv
    obtain ⟨u, hu⟩ := tearDownWithin_idle
      (w.setControl s { w.controlOf s with count := (w.controlOf s).count - 1 }).liveSlots hidle
    unfold tearDown at hw'
    rw [hu] at hw'
    cases hw'
  · cases hw'

/-- The calls that end in a course were made of a new block, and left it as the block of the slot is. -/
def World.Past (w : World) (s : SlotId) (c : Course) : Prop :=
  ∃ address capacity calls, performAll calls (Course.start address capacity) = .ok () c ∧ c.block = w.controlOf s

/-- **What a slot without a value still counts.**  After any program of handle steps and direct calls that was not
reported, the block of a slot is at the end of a course of calls.  While it holds no value, every such course says what
its count is: it is zero, and a reference that is added or dropped is reported as one to a dead value, exactly if the
last value that was torn down on the course, if any, was torn down by the drop of its last reference. -/
theorem count_eq_zero_iff_of_vacant (hs : AllNew slots) (hr : Unreported slots w) (hx : (w.slots.find? s).isSome)
    (hv : (w.controlOf s).state ≠ .occupied) :
    (∃ c, w.Past s c) ∧ ∀ c, w.Past s c →
      ((w.controlOf s).count = 0 ↔ ∀ e ∈ c.endings.getLast?, e.counted) ∧
      ((∃ w', onControl s ControlBlock.addReference w = .error (.violation .cloningDead) w') ↔
        ∀ e ∈ c.endings.getLast?, e.counted) ∧
      ((∃ w', dropWith tearDown s w = .error (.violation .countUnderflow) w') ↔
        ∀ e ∈ c.endings.getLast?, e.counted) := by
  refine ⟨?_, ?_⟩
  · obtain ⟨address, capacity, calls, c, hc, hb⟩ := hr.course hs hx
    exact ⟨c, address, capacity, calls, hc, hb⟩
  · rintro c ⟨address, capacity, calls, hc, hb⟩
    have hcount : (w.controlOf s).count = 0 ↔ ∀ e ∈ c.endings.getLast?, e.counted := by
      rw [← hb, ((lawful_start address capacity).performAll hc).spent]
      unfold Spent
      rw [hb]
      exact and_iff_right hv
    exact ⟨hcount, addReference_reports_iff.trans hcount, (dropReference_reports_iff hv).trans hcount⟩

/-! ### A slot that was used by an exclusive handle -/

def oneSlot : Table SlotId Slot := [(.numbered 0, ⟨.fresh 0 64, none⟩)]

/-- An exclusive handle was made in the slot and destroyed again. -/
def vacatedOnce : World where
  slots := [(.numbered 0, ⟨⟨.empty, 1, none, 0, 64⟩, some (.int 1)⟩)]
  held := []
  bag := []
  values := []
  trace := [.constructed (.numbered 0) (.single .int), .destructed (.numbered 0) (.single .int)]

theorem allNew_oneSlot : AllNew oneSlot := by
  refine ⟨by decide, ?_⟩
  intro e he
  simp only [oneSlot, List.mem_cons, List.not_mem_nil, or_false] at he
  subst he
  rfl

theorem unreported_vacatedOnce : Unreported oneSlot vacatedOnce := by
  have hmade : Unreported oneSlot _ := .step (.use (.make (.named "h") (.numbered 0) .unique (.ofKind .int)
    (.arguments (Seed.plain (.int 1))) false)) .start (.inl rfl)
  exact .step (.use (.destroy (.named "h"))) hmade (.inl rfl)

/-- The course of the slot ends with a teardown that was not counted, so another reference is added without a report. -/
theorem count_eq_zero_iff_of_vacant_vacatedOnce :
    AllNew oneSlot ∧ Unreported oneSlot vacatedOnce ∧ (vacatedOnce.slots.find? (.numbered 0)).isSome ∧
      (vacatedOnce.controlOf (.numbered 0)).state ≠ .occupied ∧
      ∃ c, vacatedOnce.Past (.numbered 0) c ∧ c.endings = [⟨.single .int, false⟩] ∧
        (vacatedOnce.controlOf (.numbered 0)).count ≠ 0 ∧
        ¬ ∃ w', onControl (.numbered 0) ControlBlock.addReference vacatedOnce =
          .error (.violation .cloningDead) w' := by
  have hpast : vacatedOnce.Past (.numbered 0) _ :=
    ⟨0, 64, [.tryClaim, .publish (.single .int), .teardown, .returns], rfl, rfl⟩
  obtain ⟨-, hcourse⟩ :=
    count_eq_zero_iff_of_vacant allNew_oneSlot unreported_vacatedOnce (s := .numbered 0) rfl (by decide)
  obtain ⟨hcount, hadd, -⟩ := hcourse _ hpast
  exact ⟨allNew_oneSlot, unreported_vacatedOnce, rfl, by decide, _, hpast, rfl,
    fun h => absurd (hcount.mp h) (by decide), fun h => absurd (hadd.mp h) (by decide)⟩

/-- The empty slot still counts one reference.  Another one is added without a report, and the drop of the first is
reported as a teardown, not as an underflow. -/
theorem empty_slot_counts_one :
    AllNew oneSlot ∧ Unreported oneSlot vacatedOnce ∧ (vacatedOnce.controlOf (.numbered 0)).state = .empty ∧
      (vacatedOnce.controlOf (.numbered 0)).count = 1 ∧
      (Deed.call (.numbered 0) .addReference).run vacatedOnce =
        .ok () (vacatedOnce.setControl (.numbered 0) ⟨.empty, 2, none, 0, 64⟩) ∧
      (Deed.call (.numbered 0) .dropReference).run vacatedOnce =
        .error (.violation (.doubleTeardown .empty))
          (vacatedOnce.setControl (.numbered 0) ⟨.empty, 0, none, 0, 64⟩) :=
  ⟨allNew_oneSlot, unreported_vacatedOnce, rfl, rfl, rfl, rfl⟩

end SlotHandles
