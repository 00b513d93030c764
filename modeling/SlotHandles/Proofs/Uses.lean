import SlotHandles.Proofs.Soundness

/-!
# Uses of values

Looking at the value of a handle, changing it, and calling it through a view.  In a sound world the checks in front of
an access fail for an empty handle and for an index out of range, and for nothing else: a handle that owns a value
leads to that value, and its view is one of the value's type.
-/

namespace SlotHandles

open World

variable {w w' : World} {h : Handle} {s : SlotId} {t : StoredType} {v : Value} {M : Multiset Handle}

/-! ### Changes that keep the link -/

theorem Value.keepsLink_setItem (i : Nat) (n : Int32) : Value.KeepsLink (Value.setItem i n) := by
  intro v
  cases v with
  | collection item items => simp [Value.setItem, Value.type, Value.next?, Value.isPassive]
  | _ => exact ⟨rfl, rfl, rfl⟩

theorem Value.keepsLink_call (m : Method) : Value.KeepsLink fun v => (v.call m).after := by
  intro v
  cases v with
  | gadget w n =>
    cases m with
    | next =>
      simp only [Value.call]
      split <;> exact ⟨rfl, rfl, rfl⟩
    | _ => exact ⟨rfl, rfl, rfl⟩
  | circle | rectangle | square | ticker => cases m <;> exact ⟨rfl, rfl, rfl⟩
  | _ => exact ⟨rfl, rfl, rfl⟩

theorem World.Sound.changeValue {f : Value → Value} (hw : w.Sound M) (hf : Value.KeepsLink f)
    (ho : (w.controlOf s).state = .occupied) (hv : w.storageOf s = some v) : (w.setStorage s (f v)).Sound M := by
  obtain ⟨-, -, hp⟩ := hw.balanced.value_of_storage ho hv
  refine hw.setValue ?_ ho hv (hf v).1 (hp.change hf)
  rw [(hf v).2.1]

theorem calm_setStorage (w : World) (s : SlotId) (v : Value) : w.Calm (w.setStorage s v) :=
  calm_of_controlOf (List.append_nil _).symm quiet_nil fun t => controlOf_setStorage w s t v

/-! ### The checks -/

def Handle.FailsEmpty (h : Handle) (f : Failure) : Prop := f = .violation (.dereferencingEmpty h.family) ∧ h.slot = none

/-- An item was looked for through an empty handle or out of range. -/
def Handle.FailsAt (h : Handle) (i : Nat) (f : Failure) : Prop :=
  h.FailsEmpty f ∨ f = .violation (.indexOutOfRange i h.ref.extent) ∧ h.ref.extent ≤ i

theorem Handle.not_failsEmpty {f : Failure} (hs : h.slot = some s) : ¬ h.FailsEmpty f := by
  rintro ⟨-, hnone⟩
  rw [hs] at hnone
  cases hnone

theorem Handle.not_failsAt {f : Failure} {i : Nat} (hs : h.slot = some s) (hi : i < h.ref.extent) : ¬ h.FailsAt i f := by
  rintro (hf | ⟨-, hn⟩)
  · exact not_failsEmpty hs hf
  · omega

theorem Referent.Denotes.view {r : Referent} {elem : Ty} {view : View} (hd : r.Denotes elem s t)
    (hr : r = .view view) : view = .of (.startOf s) t := by
  subst hr
  cases elem with
  | view q face =>
    obtain ⟨-, hv⟩ := hd
    exact Referent.view.inj hv
  | block item extent =>
    obtain ⟨i, n, -, hv⟩ := hd
    cases hv
  | plain | pointer | fixed | reference =>
    obtain ⟨k, -, hv⟩ := hd
    cases hv

/-- Only an empty handle is refused. -/
theorem checkAccess_ends (hr : h.RefersIn w) :
    Ends (checkAccess h) w
      (fun _ w' => w' = w ∧ ∃ s t, h.slot = some s ∧ w.typeIn s = some t ∧ h.ref.Denotes h.elem s t)
      (fun f _ => h.FailsEmpty f) := by
  unfold checkAccess
  cases hs : h.slot with
  | none => exact ends_violate.mpr ⟨rfl, hs⟩
  | some s =>
    obtain ⟨t, ht, hd⟩ := (Handle.refersIn_of_slot_eq_some hs).mp hr
    have hgood : w = w ∧ ∃ s' t', some s = some s' ∧ w.typeIn s' = some t' ∧ h.ref.Denotes h.elem s' t' :=
      ⟨rfl, s, t, rfl, ht, hd⟩
    dsimp only
    rw [ends_bind, ends_of_ok (controlNow_apply ..), if_neg (by simp [(typeIn_eq_some_iff.mp ht).1])]
    cases href : h.ref with
    | object target => rw [href] at hgood; exact hgood
    | items first n => rw [href] at hgood; exact hgood
    | view view =>
      have hview := hd.view href
      have htype : (w.controlOf s).heldType = some t := ht
      rw [href] at hgood
      dsimp only
      rw [hview, if_neg (by simp [View.of, View.isSome]), if_neg (by simp [View.of, htype]), ← hview]
      exact hgood

theorem checkAccess_of_empty (hs : h.slot = none) (w : World) :
    checkAccess h w = .error (.violation (.dereferencingEmpty h.family)) w := by
  unfold checkAccess
  rw [hs]
  rfl

theorem checkAccess_of_slot (hr : h.RefersIn w) (hs : h.slot = some s) : checkAccess h w = .ok () w := by
  obtain ⟨_, w', hrun, rfl, -⟩ := (checkAccess_ends hr).exists_ok fun _ _ => Handle.not_failsEmpty hs
  exact hrun

theorem elementOf_apply {k : Nat} (ha : h.ref.address = some ⟨.slot s, k⟩) (hv : w.storageOf s = some v) :
    elementOf h w = .ok v w := by
  unfold elementOf
  rw [ha]
  dsimp only
  rw [bind_of_ok (rfl : (get : Act World) w = .ok w w)]
  unfold object?
  dsimp only
  rw [hv]
  rfl

/-- The handle leads to the live value of its slot. -/
def Handle.LeadsTo (w : World) (h : Handle) (s : SlotId) (v : Value) : Prop :=
  (∃ k, h.ref.address = some ⟨.slot s, k⟩) ∧ (w.controlOf s).state = .occupied ∧ w.storageOf s = some v

theorem World.Sound.leadsTo (hw : w.Sound M) {k : Nat} (ht : w.typeIn s = some t)
    (ha : h.ref.address = some ⟨.slot s, k⟩) : ∃ v, h.LeadsTo w s v ∧ v.type = t := by
  obtain ⟨v, hv, hvt⟩ := hw.balanced.value_of_type ht
  exact ⟨v, ⟨⟨k, ha⟩, (typeIn_eq_some_iff.mp ht).1, hv⟩, hvt⟩

theorem elementOf_of_leadsTo (hl : h.LeadsTo w s v) : elementOf h w = .ok v w := by
  obtain ⟨⟨k, ha⟩, -, hv⟩ := hl
  exact elementOf_apply ha hv

theorem Handle.LeadsTo.eq {s' : SlotId} {v' : Value} (hl : h.LeadsTo w s' v') (hs' : h.slot = some s')
    (hs : h.slot = some s) (hv : w.storageOf s = some v) : s' = s ∧ v' = v := by
  obtain rfl : s' = s := Option.some_inj.mp (hs'.symm.trans hs)
  exact ⟨rfl, Option.some_inj.mp (hl.2.2.symm.trans hv)⟩

/-! ### Values and views -/

theorem dereference_ends (hw : w.Sound M) (hr : h.RefersIn w) (hb : h.elem.isBlock = false)
    (hv : h.elem.isView = false) :
    Ends (dereference h) w (fun v w' => w' = w ∧ ∃ s, h.slot = some s ∧ h.LeadsTo w s v)
      (fun f _ => h.FailsEmpty f) := by
  unfold dereference
  rw [ends_bind]
  refine (checkAccess_ends hr).mono ?_ fun _ _ h => h
  rintro - w' ⟨rfl, s, t, hs, ht, hd⟩
  obtain ⟨k, -, href⟩ := (Referent.denotes_object_iff hv hb).mp hd
  obtain ⟨v, hl, -⟩ := hw.leadsTo (k := k) ht (by rw [href]; rfl)
  rw [ends_of_ok (elementOf_of_leadsTo hl)]
  exact ⟨rfl, s, hs, hl⟩

theorem dereferenceView_ends (hr : h.RefersIn w) (hv : h.elem.isView) :
    Ends (dereferenceView h) w
      (fun view w' => w' = w ∧ ∃ s t, h.slot = some s ∧ w.typeIn s = some t ∧ view = .of (.startOf s) t)
      (fun f _ => h.FailsEmpty f) := by
  unfold dereferenceView
  rw [ends_bind]
  refine (checkAccess_ends hr).mono ?_ fun _ _ h => h
  rintro - w' ⟨rfl, s, t, hs, ht, hd⟩
  cases he : h.elem with
  | view q face =>
    rw [he] at hd
    obtain ⟨-, href⟩ := hd
    rw [href]
    exact ⟨rfl, s, t, hs, ht, rfl⟩
  | _ => rw [he] at hv; cases hv

theorem dereferenceView_of_slot (hr : h.RefersIn w) (hv : h.elem.isView) (hs : h.slot = some s)
    (ht : w.typeIn s = some t) : dereferenceView h w = .ok (.of (.startOf s) t) w := by
  obtain ⟨view, w', hrun, rfl, s', t', hs', ht', rfl⟩ :=
    (dereferenceView_ends hr hv).exists_ok fun _ _ => Handle.not_failsEmpty hs
  obtain rfl : s' = s := Option.some_inj.mp (hs'.symm.trans hs)
  obtain rfl : t' = t := Option.some_inj.mp (ht'.symm.trans ht)
  exact hrun

theorem lookThrough_ends (hw : w.Sound M) (hr : h.RefersIn w) (hb : h.elem.isBlock = false) :
    Ends (lookThrough h) w (fun _ w' => w' = w) (fun f _ => h.FailsEmpty f) := by
  unfold lookThrough
  cases hv : h.elem.isView with
  | true =>
    rw [if_pos rfl, ends_bind]
    exact (dereferenceView_ends hr hv).mono (fun _ _ h => h.1) fun _ _ h => h
  | false =>
    rw [if_neg (by simp), ends_bind]
    exact (dereference_ends hw hr hb hv).mono (fun _ _ h => h.1) fun _ _ h => h

theorem lookThrough_of_empty (hs : h.slot = none) (w : World) :
    lookThrough h w = .error (.violation (.dereferencingEmpty h.family)) w := by
  have hcheck := checkAccess_of_empty hs w
  unfold lookThrough
  split
  · exact bind_of_error (bind_of_error hcheck)
  · exact bind_of_error (bind_of_error hcheck)

theorem lookThrough_of_view (hr : h.RefersIn w) (hv : h.elem.isView) (hs : h.slot = some s) (ht : w.typeIn s = some t) :
    lookThrough h w = .ok (.view (.of (.startOf s) t)) w := by
  have hview := dereferenceView_of_slot hr hv hs ht
  unfold lookThrough
  rw [if_pos hv, bind_of_ok hview]
  rfl

theorem lookThrough_of_value (hw : w.Sound M) (hr : h.RefersIn w) (hb : h.elem.isBlock = false)
    (hv : h.elem.isView = false) (hs : h.slot = some s) (hst : w.storageOf s = some v) :
    lookThrough h w = .ok (.value v) w := by
  obtain ⟨v', w', hrun, rfl, s', hs', hl⟩ :=
    (dereference_ends hw hr hb hv).exists_ok fun _ _ => Handle.not_failsEmpty hs
  obtain ⟨rfl, rfl⟩ := hl.eq hs' hs hst
  unfold lookThrough
  rw [if_neg (by simp [hv]), bind_of_ok hrun]
  rfl

theorem changeThrough_ends (hw : w.Sound M) (hr : h.RefersIn w) (hb : h.elem.isBlock = false)
    (hv : h.elem.isView = false) (f : Value → Value) :
    Ends (changeThrough h f) w (fun _ w' => ∃ s v, h.slot = some s ∧ h.LeadsTo w s v ∧ w' = w.setStorage s (f v))
      (fun f _ => h.FailsEmpty f) := by
  unfold changeThrough
  rw [ends_bind]
  refine (dereference_ends hw hr hb hv).mono ?_ fun _ _ h => h
  rintro v w' ⟨rfl, s, hs, ⟨k, ha⟩, hrest⟩
  rw [ha]
  exact ⟨s, v, hs, ⟨⟨k, ha⟩, hrest⟩, rfl⟩

/-- A call through a view of the value in a slot is a call of that value. -/
theorem callThrough_apply (hv : w.storageOf s = some v) (ht : v.type = t) (m : Method) :
    callThrough (.of (.startOf s) t) m w =
      match (v.call m).result with
      | .ok d => .ok d (w.setStorage s (v.call m).after)
      | .error thrown => .error (.exception thrown) (w.setStorage s (v.call m).after) := by
  subst ht
  unfold callThrough
  simp only [View.of]
  rw [bind_of_ok (rfl : (get : Act World) w = .ok w w)]
  dsimp only [Address.startOf]
  rw [objectAs_slot hv, bind_of_ok (writeObject_apply ..)]
  cases (v.call m).result <;> rfl

theorem callThrough_ends (hw : w.Sound M) (ht : w.typeIn s = some t) (m : Method) :
    Ends (callThrough (.of (.startOf s) t) m) w (fun _ w' => w'.Sound M ∧ w.Calm w')
      (fun f w' => (∃ thrown, f = .exception thrown) ∧ w'.Sound M ∧ w.Calm w') := by
  have ho := (typeIn_eq_some_iff.mp ht).1
  obtain ⟨v, hv, hvt⟩ := hw.balanced.value_of_type ht
  have hgood : (w.setStorage s (v.call m).after).Sound M ∧ w.Calm (w.setStorage s (v.call m).after) :=
    ⟨hw.changeValue (Value.keepsLink_call m) ho hv, calm_setStorage ..⟩
  have happly := callThrough_apply hv hvt m
  cases hresult : (v.call m).result with
  | ok d =>
    rw [hresult] at happly
    exact (ends_of_ok happly).mpr hgood
  | error thrown =>
    rw [hresult] at happly
    exact (ends_of_error happly).mpr ⟨⟨thrown, rfl⟩, hgood⟩

/-! ### Items -/

/-- An index that passes the check is that of an item. -/
theorem checkIndex_ends (hw : w.Sound M) (hr : h.RefersIn w) (hb : h.elem.isBlock) (i : Nat) :
    Ends (checkIndex h i) w (fun _ w' => w' = w ∧ ∃ s v, h.slot = some s ∧ h.LeadsTo w s v)
      (fun f _ => h.FailsAt i f) := by
  unfold checkIndex
  rw [ends_bind]
  refine (checkAccess_ends hr).mono ?_ fun _ _ h => .inl h
  rintro - w' ⟨rfl, s, t, hs, ht, hd⟩
  by_cases hi : i ≥ h.ref.extent
  · rw [if_pos hi]
    exact .inr ⟨rfl, hi⟩
  · rw [if_neg hi]
    cases he : h.elem with
    | block item extent =>
      rw [he] at hd
      obtain ⟨j, n, -, href⟩ := hd
      have hn : n ≠ 0 := by
        rintro rfl
        rw [href] at hi
        exact hi (Nat.zero_le i)
      obtain ⟨v, hl, -⟩ := hw.leadsTo (k := 0) ht (by rw [href, if_neg hn]; rfl)
      exact ⟨rfl, s, v, hs, hl⟩
    | _ => rw [he] at hb; cases hb

theorem readItem_ends (hw : w.Sound M) (hr : h.RefersIn w) (hb : h.elem.isBlock) (i : Nat) :
    Ends (readItem h i) w
      (fun n w' => w' = w ∧ ∃ s v, h.slot = some s ∧ h.LeadsTo w s v ∧ n = (v.item? i).getD 0)
      (fun f _ => h.FailsAt i f) := by
  unfold readItem
  rw [ends_bind]
  refine (checkIndex_ends hw hr hb i).mono ?_ fun _ _ h => h
  rintro - w' ⟨rfl, s, v, hs, hl⟩
  rw [ends_bind, ends_of_ok (elementOf_of_leadsTo hl)]
  exact ⟨rfl, s, v, hs, hl, rfl⟩

theorem readItem_of_empty (hs : h.slot = none) (i : Nat) (w : World) :
    readItem h i w = .error (.violation (.dereferencingEmpty h.family)) w :=
  bind_of_error (bind_of_error (checkAccess_of_empty hs w))

theorem checkIndex_of_extent_le (hr : h.RefersIn w) (hs : h.slot = some s) {i : Nat} (hi : h.ref.extent ≤ i) :
    checkIndex h i w = .error (.violation (.indexOutOfRange i h.ref.extent)) w := by
  unfold checkIndex
  rw [bind_of_ok (checkAccess_of_slot hr hs), if_pos hi]
  rfl

theorem readItem_of_extent_le (hr : h.RefersIn w) (hs : h.slot = some s) {i : Nat} (hi : h.ref.extent ≤ i) :
    readItem h i w = .error (.violation (.indexOutOfRange i h.ref.extent)) w :=
  bind_of_error (checkIndex_of_extent_le hr hs hi)

theorem writeItem_of_extent_le (hr : h.RefersIn w) (hs : h.slot = some s) {i : Nat} (hi : h.ref.extent ≤ i)
    (n : Int32) : writeItem h i n w = .error (.violation (.indexOutOfRange i h.ref.extent)) w :=
  bind_of_error (checkIndex_of_extent_le hr hs hi)

theorem readItem_of_lt (hw : w.Sound M) (hr : h.RefersIn w) (hb : h.elem.isBlock) (hs : h.slot = some s)
    (hst : w.storageOf s = some v) {i : Nat} (hi : i < h.ref.extent) :
    readItem h i w = .ok ((v.item? i).getD 0) w := by
  obtain ⟨n, w', hrun, rfl, s', v', hs', hl, rfl⟩ := (readItem_ends hw hr hb i).exists_ok fun _ _ =>
    Handle.not_failsAt hs hi
  obtain ⟨rfl, rfl⟩ := hl.eq hs' hs hst
  exact hrun

theorem writeItem_ends (hw : w.Sound M) (hr : h.RefersIn w) (hb : h.elem.isBlock) (i : Nat) (n : Int32) :
    Ends (writeItem h i n) w
      (fun _ w' => ∃ s v, h.slot = some s ∧ h.LeadsTo w s v ∧ w' = w.setStorage s (v.setItem i n))
      (fun f _ => h.FailsAt i f) := by
  unfold writeItem
  rw [ends_bind]
  refine (checkIndex_ends hw hr hb i).mono ?_ fun _ _ h => h
  rintro - w' ⟨rfl, s, v, hs, hl⟩
  rw [ends_bind, ends_of_ok (elementOf_of_leadsTo hl)]
  obtain ⟨⟨k, ha⟩, hrest⟩ := hl
  rw [ha]
  exact ⟨s, v, hs, ⟨⟨k, ha⟩, hrest⟩, rfl⟩

theorem writeItem_of_lt (hw : w.Sound M) (hr : h.RefersIn w) (hb : h.elem.isBlock) (hs : h.slot = some s)
    (hst : w.storageOf s = some v) {i : Nat} (hi : i < h.ref.extent) (n : Int32) :
    writeItem h i n w = .ok () (w.setStorage s (v.setItem i n)) := by
  obtain ⟨_, w', hrun, s', v', hs', hl, rfl⟩ := (writeItem_ends hw hr hb i n).exists_ok fun _ _ =>
    Handle.not_failsAt hs hi
  obtain ⟨rfl, rfl⟩ := hl.eq hs' hs hst
  exact hrun

end SlotHandles
