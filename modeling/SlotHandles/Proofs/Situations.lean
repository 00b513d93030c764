import SlotHandles.Proofs.Steps

/-!
# The three situations of a slot

Between the steps of a handle program every slot is in one of three situations, and only in one: it is empty and no
handle refers to it, it holds a value that a single unique handle owns, or it holds a value that some shared handles
own, as many as are counted.  The handles stored in live values count like those the program holds.
-/

namespace SlotHandles

/-- Who owns what a slot holds. -/
inductive Situation
  | vacant
  | exclusive
  | shared (n : Nat)
  deriving DecidableEq, Repr

namespace World

variable {w : World} {s : SlotId} {slots : Table SlotId Slot}

/-- The slot is in the situation: its state and its count agree with the live handles. -/
def InSituation (w : World) (s : SlotId) : Situation → Prop
  | .vacant => (w.controlOf s).state = .empty ∧ ∀ h ∈ w.handles, h.slot ≠ some s
  | .exclusive => (w.controlOf s).state = .occupied ∧ w.countOf s = 1 ∧
      owners w.handles .unique s = 1 ∧ owners w.handles .shared s = 0
  | .shared n => (w.controlOf s).state = .occupied ∧ w.countOf s = n ∧ 1 ≤ n ∧
      owners w.handles .unique s = 0 ∧ owners w.handles .shared s = n

theorem InSituation.eq {x y : Situation} (hx : w.InSituation s x) (hy : w.InSituation s y) : x = y := by
  cases x with
  | vacant =>
    cases y with
    | vacant => rfl
    | exclusive | shared n => exact absurd (hx.1.symm.trans hy.1) (by decide)
  | exclusive =>
    cases y with
    | vacant => exact absurd (hx.1.symm.trans hy.1) (by decide)
    | exclusive => rfl
    | shared n =>
      have h1 := hx.2.2.1
      have h0 := hy.2.2.2.1
      omega
  | shared m =>
    cases y with
    | vacant => exact absurd (hx.1.symm.trans hy.1) (by decide)
    | exclusive =>
      have h0 := hx.2.2.2.1
      have h1 := hy.2.2.1
      omega
    | shared n => rw [← hx.2.1, ← hy.2.1]

/-- In a sound world every slot that is not in the middle of an operation is in some situation. -/
theorem Sound.situation (hw : w.Sound 0) (hs : (w.controlOf s).state = .empty ∨ (w.controlOf s).state = .occupied) :
    ∃ x, w.InSituation s x := by
  rcases hs with he | ho
  · refine ⟨.vacant, he, ?_⟩
    intro h hh hslot
    have ho := hw.balanced_roots.occupied hh hslot
    exact absurd (he.symm.trans ho) (by decide)
  · obtain ⟨hcount, hu | hn⟩ := hw.balanced_roots.owned s ho
    · obtain ⟨h1, h0⟩ := hu
      rw [h1, h0] at hcount
      exact ⟨.exclusive, ho, hcount, h1, h0⟩
    · obtain ⟨h0, hpos⟩ := hn
      rw [h0, Nat.zero_add] at hcount
      exact ⟨.shared _, ho, hcount, hpos, h0, rfl⟩

end World

variable {w : World} {slots : Table SlotId Slot}

/-- After every completed step of a handle program each slot is in exactly one situation. -/
theorem existsUnique_situation (hs : AllEmpty slots) (hr : Reachable slots w) (s : SlotId) :
    ∃! x, w.InSituation s x := by
  obtain ⟨hw, hst⟩ := hr.sound hs
  obtain ⟨x, hx⟩ := hw.situation (hst s)
  exact ⟨x, hx, fun y hy => hy.eq hx⟩

/-- Of the linked pair, the tail is shared by two handles: the program holds one, the head stores the other. -/
theorem existsUnique_situation_linkedPair : AllEmpty twoSlots ∧ Reachable twoSlots linkedPair ∧
    linkedPair.InSituation (.numbered 0) (.shared 2) ∧
    ∃! x, linkedPair.InSituation (.numbered 0) x :=
  ⟨allEmpty_twoSlots, linkedPair_reachable, ⟨rfl, rfl, by decide, by decide, by decide⟩,
    existsUnique_situation allEmpty_twoSlots linkedPair_reachable (.numbered 0)⟩

end SlotHandles
