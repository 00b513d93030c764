import SlotHandles.Proofs.Casts
import SlotHandles.Session.Reply

/-!
# Where elements are

What a handle shows without checks tells three times whether there is an element: by the handle itself, by `get` and
by the address of the element (`World.info`).  `get` and the address always agree, and an address is one inside of the
storage of the handle's own slot.  The handle itself agrees with them but in one case: a handle of the items of a
collection without items owns its value and shows no address for it (`null_checks_agree_unless_no_items`).
-/

namespace SlotHandles

open World

/-! ### Offsets of parts -/

namespace StoredType

variable {t : StoredType} {elem : Ty} {k : Nat}

theorem conversion?_lt_size (h : t.ty.conversion? elem = some k) : k < t.size := by
  cases hv : elem.isVoid with
  | true =>
    obtain rfl := Ty.conversion?_of_isVoid hv h
    exact t.size_pos
  | false =>
    rcases ((conversion?_iff hv).mp h).2 with ⟨-, rfl⟩ | ⟨a, b, ha, -, hk⟩
    · exact t.size_pos
    · cases t with
      | single kind =>
        cases ha
        exact PartTable.offset?_lt_size hk
      | collection => cases ha

/-- Every part of a value begins inside of the value. -/
theorem HasPart.lt_size (h : t.HasPart elem k) : k < t.size := by
  rcases h with h | ⟨-, part, h⟩
  · exact conversion?_lt_size h
  · exact conversion?_lt_size h

end StoredType

/-! ### What a handle shows -/

/-- What `get` shows is there. -/
def GetInfo.isSome : GetInfo → Bool
  | .place a => a.isSome
  | .flag b => b

/-- The handle is one of items, and owns a collection that has none. -/
def Handle.OwnsNoItems (w : World) (h : Handle) : Prop :=
  h.elem.isBlock ∧ ∃ s item, h.slot = some s ∧ w.typeIn s = some (.collection item 0)

variable {slots : Table SlotId Slot} {w : World} {h : Handle} {s : SlotId} {t : StoredType} {a : Address}

/-- A reference to a value has an address, unless it is to the items of a collection without items. -/
theorem Referent.Denotes.isSome_address_iff (hd : h.ref.Denotes h.elem s t) :
    h.ref.address.isSome ↔ ¬ (h.elem.isBlock ∧ ∃ item, t = .collection item 0) := by
  cases he : h.elem with
  | view q face =>
    rw [he] at hd
    obtain ⟨-, href⟩ := hd
    simp [href, Referent.address, View.of, Ty.isBlock]
  | block item extent =>
    rw [he] at hd
    obtain ⟨i, n, rfl, href⟩ := hd
    by_cases hn : n = 0
    · simp [href, Referent.address, Ty.isBlock, hn]
    · simp [href, Referent.address, Ty.isBlock, hn]
  | plain | pointer | fixed | reference =>
    rw [he] at hd
    obtain ⟨k, -, href⟩ := hd
    simp [href, Referent.address, Ty.isBlock]

/-- The address that a reference has is one inside of the value. -/
theorem Referent.Denotes.address (hd : h.ref.Denotes h.elem s t) (ha : h.ref.address = some a) :
    a.region = .slot s ∧ a.offset < t.size := by
  cases he : h.elem with
  | view q face =>
    rw [he] at hd
    obtain ⟨-, href⟩ := hd
    rw [href] at ha
    cases ha
    exact ⟨rfl, t.size_pos⟩
  | block item extent =>
    rw [he] at hd
    obtain ⟨i, n, -, href⟩ := hd
    rw [href] at ha
    by_cases hn : n = 0
    · simp [hn, Referent.address] at ha
    · rw [if_neg hn] at ha
      cases ha
      exact ⟨rfl, t.size_pos⟩
  | plain | pointer | fixed | reference =>
    rw [he] at hd
    obtain ⟨k, hk, href⟩ := hd
    rw [href] at ha
    cases ha
    exact ⟨rfl, hk.part.lt_size⟩

theorem Handle.RefersIn.isSome_address_iff (hr : h.RefersIn w) :
    h.ref.address.isSome ↔ h.isSome ∧ ¬ h.OwnsNoItems w := by
  unfold Handle.isSome Handle.OwnsNoItems
  cases hs : h.slot with
  | none =>
    rw [(Handle.refersIn_of_slot_eq_none hs).mp hr]
    cases h.elem <;> simp [Referent.empty, Referent.address, View.empty]
  | some s =>
    obtain ⟨t, ht, hd⟩ := (Handle.refersIn_of_slot_eq_some hs).mp hr
    rw [hd.isSome_address_iff]
    constructor
    · rintro hno
      refine ⟨rfl, ?_⟩
      rintro ⟨hb, s', item, hs', htype⟩
      cases hs'
      exact hno ⟨hb, item, Option.some_inj.mp (ht.symm.trans htype)⟩
    · rintro ⟨-, hno⟩ ⟨hb, item, rfl⟩
      exact hno ⟨hb, s, item, rfl, ht⟩

/-- An embedded view is there exactly if it has an address. -/
theorem Handle.RefersIn.element_info (hr : h.RefersIn w) :
    (w.info h).element.isSome = (w.info h).place.isSome := by
  unfold World.info
  dsimp only
  cases he : h.elem with
  | view q face =>
    have hviewed : h.ref.isSome = h.ref.address.isSome := by
      cases hs : h.slot with
      | none =>
        rw [(Handle.refersIn_of_slot_eq_none hs).mp hr, he]
        rfl
      | some s =>
        obtain ⟨t, -, hd⟩ := (Handle.refersIn_of_slot_eq_some hs).mp hr
        rw [he] at hd
        rw [hd.2]
        rfl
    exact hviewed
  | plain | pointer | fixed | block | reference => rfl

/-- **Null checks.**  In every world of a handle program, of every live handle: `get` shows an element exactly if
there is an address; there is one exactly if the handle is not empty and is not a handle of items that owns a
collection without items; and the address is inside of the storage of the slot that the handle owns. -/
theorem null_checks_agree_unless_no_items (hs : AllEmpty slots) (hr : Attained slots w) (hh : h ∈ w.handles) :
    (w.info h).element.isSome = (w.info h).place.isSome ∧
    ((w.info h).place.isSome ↔ (w.info h).has ∧ ¬ h.OwnsNoItems w) ∧
    ∀ a, (w.info h).place = some a →
      ∃ s, (w.info h).slot = some s ∧ a.region = .slot s ∧ a.offset < (w.controlOf s).capacity := by
  obtain ⟨⟨lost, hw⟩, -⟩ := hr.sound hs
  have hrefers : h.RefersIn w := by
    refine hw.balanced.refers h ?_
    rw [add_assoc]
    exact Multiset.mem_add.mpr (.inr hh)
  refine ⟨hrefers.element_info, hrefers.isSome_address_iff, ?_⟩
  intro a ha
  have ha' : h.ref.address = some a := ha
  have hsome : h.isSome := (hrefers.isSome_address_iff.mp (by rw [ha']; rfl)).1
  obtain ⟨s, hslot⟩ := Option.isSome_iff_exists.mp hsome
  obtain ⟨t, ht, hd⟩ := (Handle.refersIn_of_slot_eq_some hslot).mp hrefers
  obtain ⟨hregion, hoffset⟩ := hd.address ha'
  obtain ⟨v, -, htype, -, hroom⟩ := hw.balanced.stored s (typeIn_eq_some_iff.mp ht).1
  obtain rfl : v.type = t := Option.some_inj.mp (htype.symm.trans (typeIn_eq_some_iff.mp ht).2)
  -- the value has room in the storage, so what begins inside of the value begins inside of the storage
  simp only [ControlBlock.hasRoom, Bool.and_eq_true, decide_eq_true_eq] at hroom
  exact ⟨s, hslot, hregion, hoffset.trans_le hroom.1⟩

/-- The handle of the second part shows the address of that part, sixteen bytes into its slot. -/
theorem null_checks_agree_unless_no_items_twoParts : AllEmpty twoSlots ∧ Attained twoSlots twoParts ∧
    secondPart ∈ twoParts.handles ∧ (twoParts.info secondPart).place = some ⟨.slot (.numbered 0), 16⟩ ∧
    (twoParts.info secondPart).element.isSome ∧ (twoParts.info secondPart).has ∧
    16 < (twoParts.controlOf (.numbered 0)).capacity := by
  have hmem : secondPart ∈ twoParts.handles := by decide
  obtain ⟨hget, hplace, hinside⟩ :=
    null_checks_agree_unless_no_items allEmpty_twoSlots attained_twoParts hmem
  obtain ⟨s, hslot, -, hcapacity⟩ := hinside _ rfl
  cases hslot
  exact ⟨allEmpty_twoSlots, attained_twoParts, hmem, rfl, hget, (hplace.mp rfl).1, hcapacity⟩

/-! ### A collection without items -/

def noItemsHandle : Handle := ⟨.unique, .block (.ofKind .int) none, some (.numbered 0), .items none 0⟩

/-- The world after a collection without items was made and is owned through a handle of items. -/
def noItems : World where
  slots := [(.numbered 0, ⟨⟨.occupied, 1, some (.collection .int 0), 0, 64⟩, some (.collection .int [])⟩),
    (.numbered 1, ⟨.fresh 64 64, none⟩)]
  held := [(.named "h", noItemsHandle)]
  bag := []
  values := []
  trace := [.constructed (.numbered 0) (.collection .int 0)]

theorem attained_noItems : Attained twoSlots noItems :=
  .step (.make (.named "h") (.numbered 0) .unique (.block (.ofKind .int) none) (.arguments (Seed.ofItems .int []))
    false) .start ⟨⟨rfl, rfl⟩, rfl, rfl, rfl, rfl, rfl⟩ (.returned _ rfl)

/-- A handle can own a value and show no address for it. -/
theorem owned_without_address : AllEmpty twoSlots ∧ Attained twoSlots noItems ∧ noItemsHandle ∈ noItems.handles ∧
    (noItems.info noItemsHandle).has = true ∧ (noItems.info noItemsHandle).place = none ∧
    (noItems.info noItemsHandle).element.isSome = false :=
  ⟨allEmpty_twoSlots, attained_noItems, by decide, rfl, rfl, rfl⟩

end SlotHandles
