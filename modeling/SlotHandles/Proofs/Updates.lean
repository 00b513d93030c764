import SlotHandles.Proofs.LiveHandles
import SlotHandles.Proofs.Outcome

/-!
# Updates of slots

How updates of slots combine: two updates of one half of a slot are one, and updates of different halves or of
different slots can be exchanged.  `World.masked` is the world with another value in the storage of one slot; it is
used where an operation runs while the handle in that storage is already as good as gone.

`World.liveSlots`, which bounds the depth of a cascade of releases, goes down when a slot ceases to be occupied.
-/

namespace SlotHandles.World

variable {w : World} {s t : SlotId} {c : ControlBlock} {v : Value}

theorem setControl_setControl (w : World) (s : SlotId) (c d : ControlBlock) :
    (w.setControl s c).setControl s d = w.setControl s d := by
  unfold setControl
  dsimp only
  rw [Table.adjust_adjust_self]

theorem setControl_controlOf (hd : w.slots.Distinct) (s : SlotId) : w.setControl s (w.controlOf s) = w := by
  unfold setControl
  rw [Table.adjust_eq_self hd]
  intro slot hf
  unfold controlOf
  rw [hf]

theorem setStorage_setStorage (w : World) (s : SlotId) (v u : Value) :
    (w.setStorage s v).setStorage s u = w.setStorage s u := by
  unfold setStorage
  dsimp only
  rw [Table.adjust_adjust_self]

theorem setStorage_storageOf (hd : w.slots.Distinct) (hv : w.storageOf s = some v) : w.setStorage s v = w := by
  unfold setStorage
  rw [Table.adjust_eq_self hd]
  intro slot hf
  unfold storageOf at hv
  rw [hf, Option.bind_some] at hv
  rw [← hv]

theorem setControl_setStorage (w : World) (s t : SlotId) (v : Value) (c : ControlBlock) :
    (w.setStorage s v).setControl t c = (w.setControl t c).setStorage s v := by
  unfold setStorage setControl
  dsimp only
  congr 1
  exact Table.adjust_comm _ _ _ fun _ _ => rfl

theorem setStorage_comm (w : World) (h : s ≠ t) (v u : Value) :
    (w.setStorage s v).setStorage t u = (w.setStorage t u).setStorage s v := by
  unfold setStorage
  dsimp only
  rw [Table.adjust_comm _ _ _ fun e => absurd e h]

/-! ### One slot under a mask -/

/-- The world with another value in the storage of one slot. -/
def masked (w : World) : Option (SlotId × Value) → World
  | none => w
  | some (s, v) => w.setStorage s v

variable {m : Option (SlotId × Value)}

@[simp] theorem controlOf_masked (w : World) (m : Option (SlotId × Value)) (s : SlotId) :
    (w.masked m).controlOf s = w.controlOf s := by
  cases m with
  | none => rfl
  | some e => exact controlOf_setStorage w e.1 s e.2

theorem storageOf_masked (w : World) (h : ∀ v, m ≠ some (s, v)) : (w.masked m).storageOf s = w.storageOf s := by
  cases m with
  | none => rfl
  | some e =>
    refine storageOf_setStorage_of_ne w e.2 ?_
    rintro rfl
    exact h e.2 rfl

theorem masked_setControl (w : World) (m : Option (SlotId × Value)) (s : SlotId) (c : ControlBlock) :
    (w.setControl s c).masked m = (w.masked m).setControl s c := by
  cases m with
  | none => rfl
  | some e => exact (setControl_setStorage w e.1 s e.2 c).symm

theorem masked_setStorage (w : World) (h : ∀ v, m ≠ some (s, v)) (u : Value) :
    (w.setStorage s u).masked m = (w.masked m).setStorage s u := by
  cases m with
  | none => rfl
  | some e =>
    refine setStorage_comm w ?_ u e.2
    rintro rfl
    exact h e.2 rfl

theorem masked_log (w : World) (m : Option (SlotId × Value)) (es : List Event) :
    (w.log es).masked m = (w.masked m).log es := by
  cases m <;> rfl

theorem distinct_of_masked (hd : (w.masked m).slots.Distinct) : w.slots.Distinct := by
  cases m with
  | none => exact hd
  | some e =>
    unfold masked setStorage Table.Distinct at hd
    dsimp only at hd
    rwa [Table.map_fst_adjust] at hd

/-! ### The number of live slots -/

private theorem liveSlots_adjust (hd : w.slots.Distinct) (f : Slot → Slot) {slot : Slot}
    (hf : w.slots.find? s = some slot) :
    ({ w with slots := w.slots.adjust s f } : World).liveSlots + (if slot.control.state = .occupied then 1 else 0) =
      w.liveSlots + if (f slot).control.state = .occupied then 1 else 0 := by
  unfold liveSlots
  dsimp only
  rw [(Table.adjust_perm hd f hf).countP_eq, (Table.perm_remove hd hf).countP_eq, List.countP_cons, List.countP_cons]
  simp only [decide_eq_true_eq]
  omega

theorem liveSlots_strike (hd : w.slots.Distinct) (ho : (w.controlOf s).state = .occupied) (hc : c.state ≠ .occupied) :
    (w.setControl s c).liveSlots + 1 = w.liveSlots := by
  obtain ⟨slot, hf⟩ := Option.isSome_iff_exists.mp (find?_isSome_of_occupied ho)
  have e := liveSlots_adjust hd (fun slot => { slot with control := c }) hf
  have hs : slot.control.state = .occupied := by
    unfold controlOf at ho
    rwa [hf] at ho
  rw [if_pos hs, if_neg hc] at e
  exact e

theorem liveSlots_setControl_of_state (hd : w.slots.Distinct) (hx : (w.slots.find? s).isSome)
    (hc : c.state = (w.controlOf s).state) : (w.setControl s c).liveSlots = w.liveSlots := by
  obtain ⟨slot, hf⟩ := Option.isSome_iff_exists.mp hx
  have e := liveSlots_adjust hd (fun slot => { slot with control := c }) hf
  have hs : c.state = slot.control.state := by
    unfold controlOf at hc
    rwa [hf] at hc
  dsimp only at e
  rw [hs] at e
  exact Nat.add_right_cancel e

theorem liveSlots_setControl_idle (hd : w.slots.Distinct) (hs : (w.controlOf s).state ≠ .occupied)
    (hc : c.state ≠ .occupied) : (w.setControl s c).liveSlots = w.liveSlots := by
  unfold setControl
  cases hf : w.slots.find? s with
  | none => rw [Table.adjust_of_find?_eq_none _ hf]
  | some slot =>
    have e := liveSlots_adjust hd (fun slot => { slot with control := c }) hf
    unfold controlOf at hs
    rw [hf] at hs
    rwa [if_neg hs, if_neg hc] at e

theorem liveSlots_setStorage (hd : w.slots.Distinct) (s : SlotId) (v : Value) :
    (w.setStorage s v).liveSlots = w.liveSlots := by
  unfold setStorage
  cases hf : w.slots.find? s with
  | none => rw [Table.adjust_of_find?_eq_none _ hf]
  | some slot => exact Nat.add_right_cancel (liveSlots_adjust hd (fun slot => { slot with storage := some v }) hf)

theorem liveSlots_masked (hd : (w.masked m).slots.Distinct) : (w.masked m).liveSlots = w.liveSlots := by
  cases m with
  | none => rfl
  | some e => exact liveSlots_setStorage (distinct_of_masked hd) e.1 e.2

theorem liveSlots_pos (ho : (w.controlOf s).state = .occupied) : 0 < w.liveSlots := by
  obtain ⟨slot, hf⟩ := Option.isSome_iff_exists.mp (find?_isSome_of_occupied ho)
  have hs : slot.control.state = .occupied := by
    unfold controlOf at ho
    rwa [hf] at ho
  exact List.countP_pos_iff.mpr ⟨(s, slot), Table.mem_of_find?_eq_some hf, by simpa using hs⟩

end SlotHandles.World
