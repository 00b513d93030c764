import SlotHandles.Proofs.Program

/-!
# What handles refer to

A handle of a slot refers to the value in it, in the way its element type asks for (`Referent.Denotes`): by an
address that conversions of the value's own address lead to, by a view of the value's type, or by the items of the
stored collection.  An empty handle refers to nothing.

The references that new values, conversions and casts make are of this form: `Referent.denotes_toValue`,
`Handle.RefersIn.convert` and `Referent.denotes_startOf`.
-/

namespace SlotHandles

/-- The address of the value of a stored type, converted one or more times, is one of element type `elem` at the
given number of bytes from the start. -/
inductive StoredType.Reaches (t : StoredType) : Ty → Nat → Prop
  | direct {elem : Ty} {k : Nat} : t.ty.conversion? elem = some k → Reaches t elem k
  | onward {source target : Ty} {k m : Nat} : Reaches t source k → source.conversion? target = some m →
      Reaches t target (k + m)

/-- The reference is one of element type `elem` to the value of type `t` in the slot. -/
def Referent.Denotes (r : Referent) (elem : Ty) (s : SlotId) (t : StoredType) : Prop :=
  match elem with
  | .view _ face => face.satisfiedBy t.ty ∧ r = .view (.of (.startOf s) t)
  | .block _ _ => ∃ item n, t = .collection item n ∧ r = .items (if n = 0 then none else some (.startOf s)) n
  | elem => ∃ k, t.Reaches elem k ∧ r = .object (some ⟨.slot s, k⟩)

namespace World

def typeIn (w : World) (s : SlotId) : Option StoredType := (w.controlOf s).heldType

theorem typeIn_eq_some_iff {w : World} {s : SlotId} {t : StoredType} :
    w.typeIn s = some t ↔ (w.controlOf s).state = .occupied ∧ (w.controlOf s).type = some t := by
  unfold typeIn ControlBlock.heldType
  split
  · next h => simp [h]
  · next h => simp [h]

theorem typeIn_of_occupied {w : World} {s : SlotId} (h : (w.controlOf s).state = .occupied) :
    w.typeIn s = (w.controlOf s).type := by
  unfold typeIn ControlBlock.heldType
  rw [if_pos h]

theorem typeIn_of_not_occupied {w : World} {s : SlotId} (h : (w.controlOf s).state ≠ .occupied) :
    w.typeIn s = none := by
  unfold typeIn ControlBlock.heldType
  rw [if_neg h]

theorem typeIn_congr {w w' : World} {s : SlotId} (h : w'.controlOf s = w.controlOf s) : w'.typeIn s = w.typeIn s := by
  unfold typeIn
  rw [h]

@[simp] theorem typeIn_setStorage (w : World) (s t : SlotId) (v : Value) : (w.setStorage s v).typeIn t = w.typeIn t :=
  typeIn_congr (controlOf_setStorage w s t v)

theorem typeIn_setControl_of_ne (w : World) {s t : SlotId} (c : ControlBlock) (h : t ≠ s) :
    (w.setControl s c).typeIn t = w.typeIn t := typeIn_congr (controlOf_setControl_of_ne w c h)

theorem state_typeIn_recount {w : World} {s : SlotId} (hx : (w.slots.find? s).isSome) (n : UInt32) (t : SlotId) :
    ((w.setControl s { w.controlOf s with count := n }).controlOf t).state = (w.controlOf t).state ∧
      (w.setControl s { w.controlOf s with count := n }).typeIn t = w.typeIn t := by
  by_cases hts : t = s
  · subst hts
    unfold typeIn
    rw [controlOf_setControl_self _ hx]
    exact ⟨rfl, rfl⟩
  · rw [controlOf_setControl_of_ne _ _ hts, typeIn_setControl_of_ne _ _ hts]
    exact ⟨rfl, rfl⟩

end World

/-- The handle is empty and refers to nothing, or its slot holds a value and it refers to that value. -/
def Handle.RefersIn (w : World) (h : Handle) : Prop :=
  match h.slot with
  | none => h.ref = .empty h.elem
  | some s => ∃ t, w.typeIn s = some t ∧ h.ref.Denotes h.elem s t

theorem ControlBlock.holds_of_heldType {c : ControlBlock} {t : StoredType} (h : c.heldType = some t) (elem : Ty) :
    c.holds elem = decide (t.ty = elem.identity) := by
  unfold holds
  rw [h]

namespace Ty

theorem isView_ty (t : StoredType) : t.ty.isView = false := by cases t <;> rfl

theorem isBlock_ty (t : StoredType) : t.ty.isBlock = false := by cases t <;> rfl

theorem isReference_ty (t : StoredType) : t.ty.isReference = false := by cases t <;> rfl

end Ty

namespace Referent

variable {r : Referent} {elem : Ty} {s : SlotId} {t : StoredType}

/-- Unless the element is a view or a block, the reference is an address. -/
theorem denotes_object_iff (hv : elem.isView = false) (hb : elem.isBlock = false) :
    r.Denotes elem s t ↔ ∃ k, t.Reaches elem k ∧ r = .object (some ⟨.slot s, k⟩) := by
  cases elem with
  | view q face => cases hv
  | block item extent => cases hb
  | plain | pointer | fixed | reference => exact Iff.rfl

theorem empty_object (hv : elem.isView = false) (hb : elem.isBlock = false) : empty elem = .object none := by
  cases elem with
  | view q face => cases hv
  | block item extent => cases hb
  | plain | pointer | fixed | reference => rfl

/-- The reference of a new handle denotes the value it was built with. -/
theorem denotes_toValue (h : elem.owns t.ty) (s : SlotId) : (toValue elem t s).Denotes elem s t := by
  have hplain : elem.isView = false → elem.isBlock = false → t.ty.converts elem →
      (Referent.object (some ((Address.startOf s).move ((t.ty.conversion? elem).getD 0)))).Denotes elem s t := by
    intro hv hb hc
    obtain ⟨k, hk⟩ := Option.isSome_iff_exists.mp hc
    rw [denotes_object_iff hv hb, hk]
    exact ⟨k, .direct hk, by simp [Address.startOf, Address.move]⟩
  unfold Ty.owns at h
  rw [Ty.isView_ty, Ty.isBlock_ty, Ty.isReference_ty] at h
  cases elem with
  | view q face => exact ⟨h, rfl⟩
  | block item extent =>
    cases extent with
    | some n => cases h
    | none =>
      cases t with
      | single k => cases h
      | collection i n => cases n <;> exact ⟨i, _, rfl, rfl⟩
  | plain | pointer | fixed | reference => exact hplain rfl rfl h

/-- A type that a block's values hold is its own, so the start of the storage is an address of it. -/
theorem denotes_startOf {c : ControlBlock} (hc : elem.isConcrete) (hh : c.holds elem) (ht : c.heldType = some t)
    (s : SlotId) : (Referent.object (some (.startOf s))).Denotes elem s t := by
  simp only [Ty.isConcrete, Bool.and_eq_true, Bool.not_eq_true'] at hc
  rw [denotes_object_iff hc.1.1 hc.1.2]
  refine ⟨0, .direct ?_, rfl⟩
  rw [ControlBlock.holds_of_heldType ht] at hh
  have e : t.ty = elem.identity := of_decide_eq_true hh
  cases elem with
  | view | block | reference => simp [Ty.isView, Ty.face?, Ty.isBlock, Ty.isReference] at hc
  | pointer q target => cases t <;> cases e
  | plain q leaf =>
    cases t with
    | collection => cases e
    | single k =>
      obtain rfl : Leaf.kind k = leaf := by
        simpa [StoredType.ty, Ty.ofKind, Ty.identity, Ty.unqualified] using e
      simp [StoredType.ty, Ty.ofKind, Ty.conversion?, Ty.isReference, Ty.quals, Qualifiers.within, Qualifiers.none,
        Ty.unqualified, Leaf.partOffset?, PartTable.offset?_self]
  | fixed q item n =>
    cases t with
    | single => cases e
    | collection i m =>
      obtain ⟨rfl, rfl⟩ : i.ty = item ∧ m = n := by
        simpa [StoredType.ty, Ty.identity, Ty.unqualified] using e
      simp [StoredType.ty, Ty.conversion?, Ty.isReference, Ty.quals, Qualifiers.within, Qualifiers.none,
        Ty.unqualified]

end Referent

namespace Handle

variable {w w' : World} {h : Handle} {s : SlotId}

theorem refersIn_of_slot_eq_none (hs : h.slot = none) : h.RefersIn w ↔ h.ref = .empty h.elem := by
  unfold RefersIn
  rw [hs]

theorem refersIn_of_slot_eq_some (hs : h.slot = some s) :
    h.RefersIn w ↔ ∃ t, w.typeIn s = some t ∧ h.ref.Denotes h.elem s t := by
  unfold RefersIn
  rw [hs]

theorem RefersIn.occupied (hr : h.RefersIn w) (hs : h.slot = some s) : (w.controlOf s).state = .occupied := by
  obtain ⟨t, ht, -⟩ := (refersIn_of_slot_eq_some hs).mp hr
  exact (World.typeIn_eq_some_iff.mp ht).1

/-- What a handle refers to depends on the type in its own slot only. -/
theorem RefersIn.congr (hr : h.RefersIn w) (ht : ∀ s, h.slot = some s → w'.typeIn s = w.typeIn s) :
    h.RefersIn w' := by
  cases hs : h.slot with
  | none => rwa [refersIn_of_slot_eq_none hs] at hr ⊢
  | some s =>
    rw [refersIn_of_slot_eq_some hs] at hr ⊢
    rwa [ht s hs]

theorem refersIn_empty (w : World) (family : Family) (elem : Ty) : (Handle.empty family elem).RefersIn w := rfl

theorem refersIn_cleared (w : World) (h : Handle) : h.cleared.RefersIn w := rfl

/-- A change of the element type that an operation allows keeps the reference good. -/
theorem RefersIn.convert (hr : h.RefersIn w) {target : Ty} (hc : Run.convertible target h.elem) :
    (h.convert target).RefersIn w := by
  unfold Handle.convert
  split
  · exact hr
  · next hne =>
    have ht : target.takesOver h.elem := by
      rcases Bool.or_eq_true .. ▸ hc with he | ht
      · exact absurd (of_decide_eq_true he).symm hne
      · exact ht
    simp only [Ty.takesOver, Bool.and_eq_true, Bool.not_eq_true'] at ht
    obtain ⟨⟨⟨⟨hv, hv'⟩, hb⟩, hb'⟩, hconv⟩ := ht
    obtain ⟨m, hm⟩ := Option.isSome_iff_exists.mp hconv
    cases hs : h.slot with
    | none =>
      rw [refersIn_of_slot_eq_none hs, Referent.empty_object hv' hb'] at hr
      rw [refersIn_of_slot_eq_none rfl, hr, Referent.empty_object hv hb]
      rfl
    | some s =>
      obtain ⟨t, htype, hd⟩ := (refersIn_of_slot_eq_some hs).mp hr
      obtain ⟨k, hk, href⟩ := (Referent.denotes_object_iff hv' hb').mp hd
      refine (refersIn_of_slot_eq_some rfl).mpr ⟨t, htype, (Referent.denotes_object_iff hv hb).mpr ?_⟩
      refine ⟨k + m, .onward hk hm, ?_⟩
      rw [href]
      simp [Referent.convert, Referent.address, hm, Address.move]

end Handle

end SlotHandles
