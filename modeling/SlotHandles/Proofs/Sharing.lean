import Mathlib.Data.Set.Finite.Basic
import SlotHandles.Proofs.Steps

/-!
# Copies up to the limit of the count

A program can copy a shared handle until the count of its slot is at its limit (`Reachable.exists_limit`).  There a
further reference is reported, whatever operation asks for it (`addReference_overflows`).
-/

namespace SlotHandles

open World

variable {w : World} {s : SlotId} {h : Handle} {p : Holder} {slots : Table SlotId Slot}

/-- A count at its limit does not go up any more. -/
theorem addReference_overflows (hmax : (w.controlOf s).count = 0xffffffff) :
    onControl s ControlBlock.addReference w = .error (.violation .countOverflow) (w.countedUp s) := by
  have hpos : ¬ (w.controlOf s).count = 0 := by
    rw [hmax]
    decide
  exact onControl_error ((ControlBlock.addReference_apply _).trans ((if_neg hpos).trans (if_pos hmax)))

/-- There is always a name for one more handle. -/
theorem World.exists_vacant (w : World) : ∃ q, w.Vacant q := by
  have hnames : (Set.range fun n => Holder.named (.ofList (List.replicate n 'a'))).Infinite := by
    refine Set.infinite_range_of_injective fun m n h => ?_
    have hsame : List.replicate m 'a' = List.replicate n 'a' := String.ofList_injective (Holder.named.inj h)
    simpa using congrArg List.length hsame
  obtain ⟨_, ⟨n, rfl⟩, hn⟩ := hnames.exists_notMem_finset (w.held.map Prod.fst).toFinset
  exact ⟨_, rfl, Table.find?_eq_none_iff.mpr (by simpa using hn)⟩

/-- A program copies a shared handle once more. -/
theorem Reachable.share (hs : AllEmpty slots) (hr : Reachable slots w) (hl : w.live? p = some h)
    (hf : h.family = .shared) (ha : h.slot = some s) (hroom : (w.controlOf s).count ≠ 0xffffffff) :
    ∃ w', Reachable slots w' ∧ (w'.controlOf s).count = (w.controlOf s).count + 1 ∧ w'.typeIn s = w.typeIn s ∧
      ∀ q g, w.live? q = some g → w'.live? q = some g := by
  have hw := (hr.sound hs).1
  obtain ⟨into, hinto⟩ := w.exists_vacant
  obtain ⟨⟨⟩, w₁, hadd, rfl, -, -, hcounts⟩ :=
    (hw.addReference (hw.mem_of_live hl) hf ha).exists_ok fun _ _ hmax => hroom hmax.2
  have hx := find?_isSome_of_occupied ((hw.refersIn_of_live hl).occupied ha)
  have hself : ((w.countedUp s).controlOf s).count = (w.controlOf s).count + 1 := by
    unfold World.countedUp
    rw [controlOf_setControl_self _ hx]
  have hsame : h.convert h.elem = h := if_pos rfl
  have hrun : (HandleStep.constructByCopy into h.elem p).run w = .ok .done ((w.countedUp s).setHandle into h) := by
    unfold HandleStep.run
    dsimp only
    rw [copyHandle_eq, bind_assoc, bind_of_ok (readHandle_apply hl), bind_assoc]
    unfold countShared
    rw [ha, bind_of_ok hadd, pure_bind, hsame]
    rfl
  have hadmissible : (HandleStep.constructByCopy into h.elem p).Admissible w :=
    ⟨hinto, h, hl, hf, by simp [Run.convertible]⟩
  refine ⟨_, .advance _ hr hadmissible hrun rfl, ?_, ?_, ?_⟩
  · rw [controlOf_setHandle, hself]
  · exact (typeIn_congr (controlOf_setHandle ..)).trans (state_typeIn_recount hx _ s).2
  · intro q g hq
    have hne : q ≠ into := by
      rintro rfl
      rw [live?_own hinto.1, hinto.2] at hq
      cases hq
    rw [live?_setHandle_of_ne hne, hcounts.live?, hq]

/-- It can go on until the count is at its limit. -/
theorem Reachable.shareUpTo (hs : AllEmpty slots) (hr : Reachable slots w) (hl : w.live? p = some h)
    (hf : h.family = .shared) (ha : h.slot = some s) (n : Nat) (hn : (w.controlOf s).count.toNat + n < 2 ^ 32) :
    ∃ w', Reachable slots w' ∧ (w'.controlOf s).count.toNat = (w.controlOf s).count.toNat + n ∧
      w'.typeIn s = w.typeIn s ∧ ∀ q g, w.live? q = some g → w'.live? q = some g := by
  induction n with
  | zero => exact ⟨w, hr, rfl, rfl, fun _ _ h => h⟩
  | succ n ih =>
    obtain ⟨u, hu, hcount, htype, hlive⟩ := ih (by omega)
    have hroom : (u.controlOf s).count ≠ 0xffffffff := by
      intro hmax
      rw [hmax] at hcount
      have hlimit : (0xffffffff : UInt32).toNat = 2 ^ 32 - 1 := rfl
      omega
    obtain ⟨w', hw', hcount', htype', hlive'⟩ := hu.share hs (hlive p h hl) hf ha hroom
    refine ⟨w', hw', ?_, htype'.trans htype, fun q g hq => hlive' q g (hlive q g hq)⟩
    rw [hcount', toNat_add_one hroom, hcount, Nat.add_assoc]

/-- The limit is reached. -/
theorem Reachable.exists_limit (hs : AllEmpty slots) (hr : Reachable slots w) (hl : w.live? p = some h)
    (hf : h.family = .shared) (ha : h.slot = some s) :
    ∃ w', Reachable slots w' ∧ (w'.controlOf s).count = 0xffffffff ∧ w'.typeIn s = w.typeIn s ∧
      ∀ q g, w.live? q = some g → w'.live? q = some g := by
  have hlt := (w.controlOf s).count.toNat_lt
  have hlimit : (0xffffffff : UInt32).toNat = 2 ^ 32 - 1 := rfl
  obtain ⟨w', hw', hcount, htype, hlive⟩ :=
    hr.shareUpTo hs hl hf ha (2 ^ 32 - 1 - (w.controlOf s).count.toNat) (by omega)
  refine ⟨w', hw', UInt32.toNat_inj.mp ?_, htype, hlive⟩
  rw [hcount, hlimit]
  omega

end SlotHandles
