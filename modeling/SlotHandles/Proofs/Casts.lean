import SlotHandles.Proofs.Lifetimes
import SlotHandles.Proofs.Sharing

/-!
# Casts back to the stored type

However often a handle was converted on the way, its element is the part of the value that one conversion of the
value's own address leads to (`StoredType.Reaches.part`).  The address of the value itself is not kept: a cast takes it
from the slot.  It gives the handle of the value as it was constructed, if the type is the stored one, and else an empty
handle and no change at all (`cast_restores_constructed`).
-/

namespace SlotHandles

/-! ### Parts of a value -/

namespace Ty

variable {source target elem : Ty} {m : Nat}

/-- An address of the type does not say what it is the address of. -/
def isVoid (t : Ty) : Bool := t.unqualified = .plain .none .void

/-- Between types without qualifiers an address stays where it is, or moves to a part. -/
def MovesBy (source target : Ty) (m : Nat) : Prop :=
  source = target ∧ m = 0 ∨ ∃ a b, source = .plain .none a ∧ target = .plain .none b ∧ a.partOffset? b = some m

theorem movesBy_plain_iff {a b : Leaf} : MovesBy (.plain .none a) (.plain .none b) m ↔ a.partOffset? b = some m := by
  constructor
  · rintro (⟨he, rfl⟩ | ⟨x, y, hx, hy, h⟩)
    · cases he
      exact PartTable.offset?_self _ a
    · cases hx
      cases hy
      exact h
  · exact fun h => .inr ⟨a, b, rfl, rfl, h⟩

theorem quals_ty (t : StoredType) : t.ty.quals = .none := by cases t <;> rfl

theorem unqualified_ty (t : StoredType) : t.ty.unqualified = t.ty := by cases t <;> rfl

theorem conversion?_of_isVoid (hv : target.isVoid) (h : source.conversion? target = some m) : m = 0 := by
  have ht : target.unqualified = .plain .none .void := of_decide_eq_true hv
  unfold conversion? at h
  rw [ht] at h
  split at h
  · cases h
  · cases h
    rfl

theorem conversion?_eq_some_iff (hv : target.isVoid = false) :
    source.conversion? target = some m ↔ (source.isReference = false ∧ target.isReference = false ∧
      source.quals.within target.quals) ∧ source.unqualified.MovesBy target.unqualified m := by
  have ht : target.unqualified ≠ .plain .none .void := of_decide_eq_false hv
  have hallowed : (source.isReference || target.isReference || !source.quals.within target.quals) = false ↔
      source.isReference = false ∧ target.isReference = false ∧ source.quals.within target.quals := by
    simp [and_assoc]
  rw [← hallowed]
  unfold conversion?
  cases source.isReference || target.isReference || !source.quals.within target.quals with
  | true => simp
  | false =>
    rw [if_neg (by simp), eq_self, true_and]
    split
    · next q htarget =>
      cases target <;> cases htarget
      exact absurd rfl ht
    · next p a q b _ hsource htarget =>
      cases source <;> cases hsource
      cases target <;> cases htarget
      exact movesBy_plain_iff.symm
    · next _ hplain =>
      -- the types are not both plain, so they are to be the same
      constructor
      · intro h
        split at h
        · next he =>
          cases h
          exact .inl ⟨he, rfl⟩
        · cases h
      · rintro (⟨he, rfl⟩ | ⟨a, b, ha, hb, -⟩)
        · rw [if_pos he]
        · exact absurd hb (hplain _ _ _ _ ha)

end Ty

namespace StoredType

variable {t : StoredType} {source target elem : Ty} {k m : Nat}

/-- The part of a value that an element type names: one conversion of the value's own address leads to it.  An address
without a type may be that of any part. -/
def HasPart (t : StoredType) (elem : Ty) (k : Nat) : Prop :=
  t.ty.conversion? elem = some k ∨ elem.isVoid ∧ ∃ part, t.ty.conversion? part = some k

theorem conversion?_iff (hv : elem.isVoid = false) :
    t.ty.conversion? elem = some k ↔ elem.isReference = false ∧ t.ty.MovesBy elem.unqualified k := by
  rw [Ty.conversion?_eq_some_iff hv, Ty.isReference_ty, Ty.quals_ty, Ty.unqualified_ty]
  simp [Qualifiers.within, Qualifiers.none]

theorem conversion?_trans (hs : source.isVoid = false) (ht : target.isVoid = false)
    (h : t.ty.conversion? source = some k) (h' : source.conversion? target = some m) :
    t.ty.conversion? target = some (k + m) := by
  rw [conversion?_iff hs] at h
  rw [Ty.conversion?_eq_some_iff ht] at h'
  rw [conversion?_iff ht]
  obtain ⟨-, hk⟩ := h
  obtain ⟨⟨-, href, -⟩, hm⟩ := h'
  refine ⟨href, ?_⟩
  rcases hk with ⟨hk, rfl⟩ | ⟨a, b, ha, hb, hk⟩
  · rw [Nat.zero_add, hk]
    exact hm
  rcases hm with ⟨hm, rfl⟩ | ⟨b', c, hb', hc, hm⟩
  · exact .inr ⟨a, b, ha, hm ▸ hb, hk⟩
  · cases hb.symm.trans hb'
    cases t with
    | single kind =>
      cases ha
      exact .inr ⟨.kind kind, c, rfl, hc, PartTable.offset?_trans hk hm⟩
    | collection => cases ha

/-- From an address without a type no other address is to be had. -/
theorem isVoid_of_conversion? (hs : source.isVoid) (h : source.conversion? target = some m) : target.isVoid := by
  have hsource : source.unqualified = .plain .none .void := of_decide_eq_true hs
  by_contra hv
  rw [Bool.not_eq_true] at hv
  obtain ⟨-, hm⟩ := (Ty.conversion?_eq_some_iff hv).mp h
  have ht : target.unqualified ≠ .plain .none .void := of_decide_eq_false hv
  rw [hsource] at hm
  rcases hm with ⟨he, -⟩ | ⟨a, b, ha, hb, hm⟩
  · exact ht he.symm
  · cases ha
    have hne : Leaf.void ≠ b := fun he => ht (he ▸ hb)
    cases PartTable.mem_of_offset? hne hm

/-- Whatever the way to it, the element is the part that its type names. -/
theorem Reaches.part (h : t.Reaches elem k) : t.HasPart elem k := by
  induction h with
  | direct h => exact .inl h
  | @onward source target k m _ hc ih =>
    -- the part is settled when the address loses its type
    cases hv : target.isVoid with
    | true =>
      obtain rfl := Ty.conversion?_of_isVoid hv hc
      rcases ih with h | ⟨-, hpart⟩
      · exact .inr ⟨hv, source, h⟩
      · exact .inr ⟨hv, hpart⟩
    | false =>
      have hs : source.isVoid = false := by
        by_contra h
        rw [Bool.not_eq_false] at h
        rw [isVoid_of_conversion? h hc] at hv
        cases hv
      rcases ih with h | ⟨h, -⟩
      · exact .inl (conversion?_trans hs hv h hc)
      · rw [hs] at h
        cases h

end StoredType

/-! ### There and back -/

variable {slots : Table SlotId Slot} {w : World} {p : Holder} {h : Handle} {s : SlotId} {t : StoredType} {elem : Ty}
  {M : Multiset Handle}

/-- The slot of the handle holds the value of type `t` that was last constructed in it, and the element of the handle is
the value seen through an interface, its items, or the part of it that the element type names. -/
structure Handle.Locates (w : World) (h : Handle) (s : SlotId) (t : StoredType) : Prop where
  type : w.typeIn s = some t
  value : ∃ v, w.storageOf s = some v ∧ v.type = t
  latest : (lifeOf s w.trace).getLast? = some (.constructed s t)
  view : h.elem.isView → h.ref = .view (.of (.startOf s) t)
  items : h.elem.isBlock →
    ∃ item n, t = .collection item n ∧ h.ref = .items (if n = 0 then none else some (.startOf s)) n
  part : h.elem.isView = false → h.elem.isBlock = false →
    ∃ k, t.HasPart h.elem k ∧ h.ref = .object (some ((Address.startOf s).move k))

/-- The handle is cast to the whole value in its slot.  By a move the source is emptied and nothing is counted; by a
copy the source stays, and one reference more is counted unless the count is at its limit. -/
structure World.CastsBack (w : World) (p : Holder) (h : Handle) (s : SlotId) (elem : Ty) : Prop where
  moved : castByMove elem p w = .ok (h.restored elem s) (w.setHandle p h.cleared)
  emptied : (w.setHandle p h.cleared).live? p = some h.cleared
  unchanged : ∀ x, (w.setHandle p h.cleared).controlOf x = w.controlOf x
  copied : h.family = .shared → Ends (castByCopy elem p) w
    (fun g w' => g = h.restored elem s ∧ w' = w.countedUp s ∧ w'.live? p = some h ∧ w'.countOf s = w.countOf s + 1)
    (fun f _ => f = .violation .countOverflow ∧ (w.controlOf s).count = 0xffffffff)

/-- A cast of the handle gives an empty handle and changes nothing. -/
structure World.RefusesCast (w : World) (p : Holder) (h : Handle) (elem : Ty) : Prop where
  moved : castByMove elem p w = .ok (.empty h.family elem) w
  copied : h.family = .shared → castByCopy elem p w = .ok (.empty h.family elem) w

theorem Referent.Denotes.locates (hd : h.ref.Denotes h.elem s t) (ht : w.typeIn s = some t)
    (hv : ∃ v, w.storageOf s = some v ∧ v.type = t)
    (hl : (lifeOf s w.trace).getLast? = some (.constructed s t)) : h.Locates w s t := by
  refine ⟨ht, hv, hl, ?_, ?_, ?_⟩
  · intro hview
    cases he : h.elem with
    | view q face =>
      rw [he] at hd
      exact hd.2
    | _ => rw [he] at hview; cases hview
  · intro hblock
    cases he : h.elem with
    | block item extent =>
      rw [he] at hd
      exact hd
    | _ => rw [he] at hblock; cases hblock
  · intro hview hblock
    obtain ⟨k, hk, href⟩ := (Referent.denotes_object_iff hview hblock).mp hd
    refine ⟨k, hk.part, ?_⟩
    rw [href, Address.startOf, Address.move, Nat.zero_add]

theorem World.Sound.castsBack (hw : w.Sound M) (hl : w.live? p = some h) (hs : h.slot = some s)
    (ht : w.typeIn s = some t) (he : elem.identity = t.ty) : w.CastsBack p h s elem := by
  have hh : (w.controlOf s).holds elem := by
    rw [ControlBlock.holds_of_heldType ht]
    exact decide_eq_true he.symm
  refine ⟨castByMove_of_holds hw hl hs hh, live?_setHandle_self hl _, fun x => controlOf_setHandle .., ?_⟩
  intro hf
  refine (castByCopy_of_holds hw hl hf hs hh).mono ?_ fun _ _ h => h
  rintro g w' ⟨rfl, rfl, hmax, -, hcounts⟩
  refine ⟨rfl, rfl, (hcounts.live? p).trans hl, ?_⟩
  have hx := find?_isSome_of_occupied (typeIn_eq_some_iff.mp ht).1
  unfold countOf countedUp
  rw [controlOf_setControl_self _ hx]
  exact toNat_add_one hmax

/-- The copying cast of a handle is reported when the count is at its limit. -/
theorem World.castByCopy_overflows (hl : w.live? p = some h) (hs : h.slot = some s) (hh : (w.controlOf s).holds elem)
    (hmax : (w.controlOf s).count = 0xffffffff) :
    castByCopy elem p w = .error (.violation .countOverflow) (w.countedUp s) := by
  unfold castByCopy
  rw [bind_of_ok (readHandle_apply hl), hs]
  dsimp only
  rw [bind_of_ok (controlNow_apply ..), if_neg (by simp [hh])]
  exact bind_of_error (addReference_overflows hmax)

theorem World.refusesCast (hl : w.live? p = some h)
    (hne : ∀ s t, h.slot = some s → w.typeIn s = some t → elem.identity ≠ t.ty) : w.RefusesCast p h elem := by
  have hc : ¬ h.CastsTo w elem := by
    rintro ⟨s, hs, hh⟩
    cases ht : (w.controlOf s).heldType with
    | none =>
      unfold ControlBlock.holds at hh
      rw [ht] at hh
      cases hh
    | some t =>
      rw [ControlBlock.holds_of_heldType ht] at hh
      exact hne s t hs ht (of_decide_eq_true hh).symm
  exact ⟨castByMove_of_not_castsTo hl hc, fun _ => castByCopy_of_not_castsTo hl hc⟩

/-- In every world of a handle program a handle that is not empty is one of the value last constructed in its slot.  A
cast to the type of that value gives a handle of the whole value; every other cast, and every cast of an empty handle,
gives an empty handle and changes nothing. -/
theorem cast_restores_constructed (hs : AllEmpty slots) (hr : Attained slots w) (hl : w.live? p = some h) :
    (∀ s, h.slot = some s → ∃ t, h.Locates w s t ∧ ∀ elem : Ty, elem.identity = t.ty → w.CastsBack p h s elem) ∧
      ∀ elem : Ty, (∀ s t, h.slot = some s → w.typeIn s = some t → elem.identity ≠ t.ty) → w.RefusesCast p h elem := by
  obtain ⟨⟨lost, hw⟩, -⟩ := hr.sound hs
  refine ⟨?_, fun elem hne => World.refusesCast hl hne⟩
  intro s hslot
  obtain ⟨t, ht, hd⟩ := (Handle.refersIn_of_slot_eq_some hslot).mp (hw.refersIn_of_live hl)
  have hvalue := hw.balanced.value_of_type ht
  exact ⟨t, hd.locates ht hvalue (hr.getLast?_lifeOf hs ht), fun elem he => hw.castsBack hl hslot ht he⟩

/-! ### The second part of a value -/

/-- A shared handle to the second part of a value of two parts. -/
def secondPart : Handle := ⟨.shared, .ofKind .right, some (.numbered 0), .object (some ⟨.slot (.numbered 0), 16⟩)⟩

/-- The world after the value was constructed. -/
def twoParts : World where
  slots := [(.numbered 0, ⟨⟨.occupied, 1, some (.single .both), 0, 64⟩, some (.both 1 2)⟩),
    (.numbered 1, ⟨.fresh 64 64, none⟩)]
  held := [(.named "second", secondPart)]
  bag := []
  values := []
  trace := [.constructed (.numbered 0) (.single .both)]

theorem twoParts_reachable : Reachable twoSlots twoParts :=
  .advance (.make (.named "second") (.numbered 0) .shared (.ofKind .right) (.arguments (Seed.plain (.both 1 2))) false)
    .start ⟨⟨rfl, rfl⟩, rfl, rfl, rfl, rfl, rfl⟩ rfl rfl

theorem attained_twoParts : Attained twoSlots twoParts := twoParts_reachable.attained

/-- The second part is cast to the value of two parts, and not to the type the handle has already. -/
theorem cast_restores_constructed_twoParts : AllEmpty twoSlots ∧ Attained twoSlots twoParts ∧
    twoParts.live? (.named "second") = some secondPart ∧ secondPart.Locates twoParts (.numbered 0) (.single .both) ∧
    twoParts.CastsBack (.named "second") secondPart (.numbered 0) (.ofKind .both) ∧
    twoParts.RefusesCast (.named "second") secondPart (.ofKind .right) := by
  obtain ⟨hback, hrefused⟩ :=
    cast_restores_constructed allEmpty_twoSlots attained_twoParts (show twoParts.live? (.named "second") = _ from rfl)
  obtain ⟨t, hlocates, hcast⟩ := hback (.numbered 0) rfl
  obtain rfl : .single .both = t := Option.some_inj.mp hlocates.type
  refine ⟨allEmpty_twoSlots, attained_twoParts, rfl, hlocates, hcast _ rfl, hrefused _ ?_⟩
  rintro s t ⟨⟩ ht
  obtain rfl : .single .both = t := Option.some_inj.mp ht
  decide

/-- The cast is reported instead when it copies and the count is at its limit, which a program can reach. -/
theorem copying_cast_overflows : ∃ w u, Reachable twoSlots w ∧ w.live? (.named "second") = some secondPart ∧
    w.typeIn (.numbered 0) = some (.single .both) ∧ (Ty.ofKind .both).identity = (StoredType.single .both).ty ∧
    castByCopy (.ofKind .both) (.named "second") w = .error (.violation .countOverflow) u := by
  obtain ⟨w, hr, hmax, htype, hlive⟩ := twoParts_reachable.exists_limit allEmpty_twoSlots
    (show twoParts.live? (.named "second") = _ from rfl) rfl rfl
  have hl := hlive (.named "second") _ rfl
  have hh : (w.controlOf (.numbered 0)).holds (.ofKind .both) := by
    rw [ControlBlock.holds_of_heldType (t := .single .both) htype]
    rfl
  exact ⟨w, _, hr, hl, htype, rfl, World.castByCopy_overflows hl rfl hh hmax⟩

end SlotHandles
