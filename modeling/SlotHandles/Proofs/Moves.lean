import SlotHandles.Proofs.Soundness

/-!
# Moves, copies and casts

The operations that let go of nothing: a handle is kept at a new place, moved, copied, exchanged or cast.  From a sound
world they lead to a sound world with the new handle in hand, and no value is built or torn down.  A copy fails only
when the count cannot go up any more.
-/

namespace SlotHandles

open World

variable {w w' : World} {p q into : Holder} {h g : Handle} {M : Multiset Handle} {elem : Ty}

theorem keepHandle_ok (hw : w.Sound (h ::ₘ M)) (hp : w.Vacant p) :
    ∃ w', keepHandle p h w = .ok .done w' ∧ w'.Sound M ∧ w.Calm w' :=
  ⟨w.setHandle p h, rfl, hw.place hp, calm_setHandle w p h⟩

theorem moveHandle_apply (hl : w.live? p = some h) (elem : Ty) :
    moveHandle elem p w = .ok (h.convert elem) (w.setHandle p h.cleared) := by
  unfold moveHandle
  rw [bind_of_ok (readHandle_apply hl)]
  rfl

theorem moveHandle_ok (hw : w.Sound M) (hl : w.live? p = some h) (hc : Run.convertible elem h.elem) :
    ∃ w', moveHandle elem p w = .ok (h.convert elem) w' ∧ w'.Sound (h.convert elem ::ₘ M) ∧ w.Calm w' ∧
      ∀ into, w.Vacant into → w'.Vacant into := by
  refine ⟨_, moveHandle_apply hl elem, (hw.lift hl).convert hc, calm_setHandle .., ?_⟩
  intro into hinto
  exact hinto.setHandle hl _

/-- Count one more reference to the slot of a handle, if it has one. -/
def countShared (h : Handle) : Act Unit :=
  match h.slot with
  | some s => onControl s ControlBlock.addReference
  | none => pure ()

theorem countShared_ends (hw : w.Sound M) (hh : h ∈ M + w.roots + w.nested) (hf : h.family = .shared) :
    Ends (countShared h) w (fun _ w' => w'.Sound (h ::ₘ M) ∧ w.Counts w')
      (fun f _ => w.Overflows f) := by
  unfold countShared
  cases hs : h.slot with
  | none =>
    have hr := hw.balanced.refers h hh
    exact ⟨(Sound.cons_iff_of_empty hs hr).mpr hw, .refl w⟩
  | some s =>
    have ho := hw.balanced.occupied hh hs
    exact (hw.addReference hh hf hs).mono (fun _ _ h => h.2.2) fun _ _ h => ⟨h.1, s, ho, h.2⟩

theorem copyHandle_eq (elem : Ty) (p : Holder) :
    copyHandle elem p = (do
      let h ← readHandle p
      countShared h
      return h.convert elem) := by
  unfold copyHandle countShared
  congr
  funext h
  cases h.slot <;> rfl

theorem copyHandle_ends (hw : w.Sound M) (hl : w.live? p = some h) (hf : h.family = .shared)
    (hc : Run.convertible elem h.elem) :
    Ends (copyHandle elem p) w (fun g w' => w'.Sound (g ::ₘ M) ∧ w.Counts w')
      (fun f _ => w.Overflows f) := by
  rw [copyHandle_eq, ends_bind, ends_of_ok (readHandle_apply hl), ends_bind]
  refine (countShared_ends hw (hw.mem_of_live hl) hf).mono ?_ fun _ _ h => h
  rintro - w' ⟨hw', hcounts⟩
  exact ⟨hw'.convert hc, hcounts⟩

theorem swapHandles_apply (hp : w.live? p = some h) (hq : w.live? q = some g) :
    swapHandles p q w = .ok () ((w.setHandle p g).setHandle q h) := by
  unfold swapHandles
  rw [bind_of_ok (readHandle_apply hp), bind_of_ok (readHandle_apply hq), bind_of_ok (writeHandle_apply ..),
    writeHandle_apply]

/-- Two handles of the same family and element type change places. -/
theorem swapHandles_ok (hw : w.Sound M) (hp : w.live? p = some h) (hq : w.live? q = some g) (hf : h.family = g.family)
    (he : h.elem = g.elem) : ∃ w', swapHandles p q w = .ok () w' ∧ w'.Sound M ∧ w.Calm w' := by
  refine ⟨_, swapHandles_apply hp hq, ?_, (calm_setHandle w p g).trans (calm_setHandle _ q h)⟩
  have hlift := hw.lift hp
  have hself : (w.setHandle p h.cleared).live? p = some h.cleared := live?_setHandle_self hp _
  by_cases hpq : p = q
  · subst hpq
    obtain rfl : h = g := Option.some_inj.mp (hp.symm.trans hq)
    rw [setHandle_setHandle, ← setHandle_setHandle w p h.cleared]
    exact hlift.put hself rfl rfl rfl
  · have hq' : (w.setHandle p h.cleared).live? q = some g := (live?_setHandle_of_ne (Ne.symm hpq) _).trans hq
    have hx := hlift.exchange hq' hf he
    have hself' : ((w.setHandle p h.cleared).setHandle q h).live? p = some h.cleared :=
      (live?_setHandle_of_ne hpq _).trans hself
    have hput := hx.put hself' rfl hf.symm he.symm
    rwa [← setHandle_comm hself hq' hpq, setHandle_setHandle] at hput

/-! ### Casts -/

theorem World.Counts.holds {s : SlotId} (hc : w.Counts w') (hh : (w.controlOf s).holds elem) :
    (w'.controlOf s).holds elem := by
  have ht : (w'.controlOf s).heldType = (w.controlOf s).heldType := hc.calm.type s
  unfold ControlBlock.holds at hh ⊢
  rwa [ht]

theorem adopt_apply {s : SlotId} (ho : (w.controlOf s).state = .occupied) (hh : (w.controlOf s).holds elem)
    (family : Family) :
    (do
      let a ← locateValue s elem
      adopting family elem s (.object (some a))) w = .ok ⟨family, elem, some s, .object (some (.startOf s))⟩ w := by
  have hlocate : locateValue s elem w = .ok (.startOf s) w := by
    unfold locateValue
    rw [bind_of_ok (controlNow_apply ..), hh]
    rfl
  rw [bind_of_ok hlocate]
  unfold adopting
  rw [bind_of_ok (controlNow_apply ..), if_neg (by simp [ho])]
  rfl

/-- The handle that a cast to the stored type itself makes of a handle of the slot. -/
def Handle.restored (h : Handle) (elem : Ty) (s : SlotId) : Handle :=
  ⟨h.family, elem, some s, .object (some (.startOf s))⟩

/-- The slot of the handle holds a value of exactly the given type. -/
def Handle.CastsTo (w : World) (h : Handle) (elem : Ty) : Prop := ∃ s, h.slot = some s ∧ (w.controlOf s).holds elem

theorem castByMove_of_occupied {s : SlotId} (hl : w.live? p = some h) (hs : h.slot = some s)
    (ho : (w.controlOf s).state = .occupied) (hh : (w.controlOf s).holds elem) :
    castByMove elem p w = .ok (h.restored elem s) (w.setHandle p h.cleared) := by
  unfold castByMove
  rw [bind_of_ok (readHandle_apply hl), hs]
  dsimp only
  rw [bind_of_ok (controlNow_apply ..), if_neg (by simp [hh]), bind_of_ok (writeHandle_apply ..)]
  exact adopt_apply (by rwa [controlOf_setHandle]) (by rwa [controlOf_setHandle]) h.family

theorem castByMove_of_holds {s : SlotId} (hw : w.Sound M) (hl : w.live? p = some h) (hs : h.slot = some s)
    (hh : (w.controlOf s).holds elem) :
    castByMove elem p w = .ok (h.restored elem s) (w.setHandle p h.cleared) :=
  castByMove_of_occupied hl hs ((hw.refersIn_of_live hl).occupied hs) hh

theorem castByMove_of_not_castsTo (hl : w.live? p = some h) (hc : ¬ h.CastsTo w elem) :
    castByMove elem p w = .ok (.empty h.family elem) w := by
  unfold castByMove
  rw [bind_of_ok (readHandle_apply hl)]
  cases hs : h.slot with
  | none => rfl
  | some s =>
    dsimp only
    rw [bind_of_ok (controlNow_apply ..), if_pos (by simpa using fun hh => hc ⟨s, hs, hh⟩)]
    rfl

/-- A cast by copy that succeeds counts one more reference and does nothing else. -/
theorem castByCopy_of_holds {s : SlotId} (hw : w.Sound M) (hl : w.live? p = some h) (hf : h.family = .shared)
    (hs : h.slot = some s) (hh : (w.controlOf s).holds elem) :
    Ends (castByCopy elem p) w
      (fun g w' => g = h.restored elem s ∧ w' = w.countedUp s ∧ (w.controlOf s).count ≠ 0xffffffff ∧
        w'.Sound (h ::ₘ M) ∧ w.Counts w')
      (fun f _ => f = .violation .countOverflow ∧ (w.controlOf s).count = 0xffffffff) := by
  unfold castByCopy
  rw [ends_bind, ends_of_ok (readHandle_apply hl), hs]
  dsimp only
  rw [ends_bind, ends_of_ok (controlNow_apply ..), if_neg (by simp [hh]), ends_bind]
  refine (hw.addReference (hw.mem_of_live hl) hf hs).mono ?_ fun _ _ h => h
  rintro - w' ⟨hrun, hmax, hw', hcounts⟩
  rw [ends_of_ok (adopt_apply (hw'.refersIn.occupied hs) (hcounts.holds hh) h.family)]
  exact ⟨rfl, hrun, hmax, hw', hcounts⟩

theorem castByCopy_of_not_castsTo (hl : w.live? p = some h) (hc : ¬ h.CastsTo w elem) :
    castByCopy elem p w = .ok (.empty h.family elem) w := by
  unfold castByCopy
  rw [bind_of_ok (readHandle_apply hl)]
  cases hs : h.slot with
  | none => rfl
  | some s =>
    dsimp only
    rw [bind_of_ok (controlNow_apply ..), if_pos (by simpa using fun hh => hc ⟨s, hs, hh⟩)]
    rfl

theorem Sound.cast {s : SlotId} (hw : w.Sound (h ::ₘ M)) (hs : h.slot = some s) (he : elem.isConcrete)
    (hh : (w.controlOf s).holds elem) : w.Sound (h.restored elem s ::ₘ M) := by
  obtain ⟨t, ht, -⟩ := (Handle.refersIn_of_slot_eq_some hs).mp hw.refersIn
  refine hw.replace rfl hs.symm ?_
  exact (Handle.refersIn_of_slot_eq_some rfl).mpr ⟨t, ht, Referent.denotes_startOf he hh ht s⟩

theorem castByMove_ok (hw : w.Sound M) (hl : w.live? p = some h) (he : elem.isConcrete) :
    ∃ g w', castByMove elem p w = .ok g w' ∧ w'.Sound (g ::ₘ M) ∧ w.Calm w' ∧
      ∀ into, w.Vacant into → w'.Vacant into := by
  by_cases hc : h.CastsTo w elem
  · obtain ⟨s, hs, hh⟩ := hc
    refine ⟨_, _, castByMove_of_holds hw hl hs hh, ?_, calm_setHandle .., fun into hinto => hinto.setHandle hl _⟩
    exact Sound.cast (hw.lift hl) hs he (by rwa [controlOf_setHandle])
  · refine ⟨_, _, castByMove_of_not_castsTo hl hc, ?_, .refl w, fun _ h => h⟩
    exact (Sound.cons_iff_of_empty rfl (Handle.refersIn_empty ..)).mpr hw

theorem castByCopy_ends (hw : w.Sound M) (hl : w.live? p = some h) (hf : h.family = .shared) (he : elem.isConcrete) :
    Ends (castByCopy elem p) w (fun g w' => w'.Sound (g ::ₘ M) ∧ w.Counts w')
      (fun f _ => w.Overflows f) := by
  by_cases hc : h.CastsTo w elem
  · obtain ⟨s, hs, hh⟩ := hc
    have ho := (hw.refersIn_of_live hl).occupied hs
    refine (castByCopy_of_holds hw hl hf hs hh).mono ?_ fun _ _ h => ⟨h.1, s, ho, h.2⟩
    rintro - w' ⟨rfl, -, -, hw', hcounts⟩
    exact ⟨Sound.cast hw' hs he (hcounts.holds hh), hcounts⟩
  · rw [ends_of_ok (castByCopy_of_not_castsTo hl hc)]
    exact ⟨(Sound.cons_iff_of_empty rfl (Handle.refersIn_empty ..)).mpr hw, .refl w⟩

end SlotHandles
