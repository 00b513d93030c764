import SlotHandles.Proofs.Casts
import SlotHandles.Proofs.Uses

/-!
# Access to one value through many handles

Whichever handles a value is used through, it is used as if it were at hand: an access through a handle to a slot gives
the result that the operation of the value's own type has on the value in the slot, throws what that throws, and leaves
the value that it leaves (`HandleStep.direct`).  A view is no exception, since it is one of the value that was
constructed in the slot (`calls_reach_constructed`).
-/

namespace SlotHandles

open World

variable {w w' u : World} {p into : Holder} {h : Handle} {s : SlotId} {t : StoredType} {v : Value} {elem : Ty}
  {M : Multiset Handle} {slots : Table SlotId Slot} {st : HandleStep}

/-! ### Accesses and what they are on a value -/

namespace HandleStep

/-- The step ends with an answer, or with an exception that the code of a value throws. -/
def Gives (st : HandleStep) (w : World) (r : Except Thrown Answer) (w' : World) : Prop :=
  match r with
  | .ok a => st.run w = .ok a w'
  | .error thrown => st.run w = .error (.exception thrown) w'

/-- What the step does to a value when it is done on the value itself: the result and the value afterwards.  A handle
that is handed on does nothing to it. -/
def direct (st : HandleStep) (v : Value) : Except Thrown Answer × Value :=
  match st with
  | .dereference _ => (.ok (.value v), v)
  | .change _ f => (.ok .done, f v)
  | .readItem _ i => (.ok (.item ((v.item? i).getD 0)), v)
  | .writeItem _ i n => (.ok .done, v.setItem i n)
  | .call _ m => ((v.call m).result.map .datum, (v.call m).after)
  | _ => (.ok .done, v)

/-- The step is an access to the value in the slot through a handle to it, or it moves, copies or casts a handle that
is not stored in the value. -/
def Uses (st : HandleStep) (w : World) (s : SlotId) : Prop :=
  st.Admissible w ∧
    match st with
    | .dereference p => ∃ h, w.live? p = some h ∧ h.slot = some s ∧ h.elem.isView = false
    | .change p _ | .call p _ => ∃ h, w.live? p = some h ∧ h.slot = some s
    | .readItem p i | .writeItem p i _ => ∃ h, w.live? p = some h ∧ h.slot = some s ∧ i < h.ref.extent
    | .constructByMove _ _ p | .constructByCopy _ _ p | .castByMove _ _ p | .castByCopy _ _ p => p ≠ .inside s
    | _ => False

theorem Gives.completes {r : Except Thrown Answer} (h : st.Gives w r w') : st.Completes w w' := by
  cases r with
  | ok a => exact .returned a h
  | error thrown => exact .threw thrown h

end HandleStep

/-- The results and the last value of the steps, done on the value itself one after another. -/
def directly (v : Value) : List HandleStep → List (Except Thrown Answer) × Value
  | [] => ([], v)
  | st :: rest => ((st.direct v).1 :: (directly (st.direct v).2 rest).1, (directly (st.direct v).2 rest).2)

/-- A run of uses of the value in a slot, each with its result. -/
inductive UseRun (s : SlotId) : World → List (HandleStep × Except Thrown Answer) → World → Prop
  | nil (w : World) : UseRun s w [] w
  | cons {w u w' : World} {st : HandleStep} {r : Except Thrown Answer} {rest : List (HandleStep × Except Thrown Answer)}
      (use : st.Uses w s) (gives : st.Gives w r u) (later : UseRun s u rest w') : UseRun s w ((st, r) :: rest) w'

/-- The slot holds the value. -/
def World.Holds (w : World) (s : SlotId) (t : StoredType) (v : Value) : Prop :=
  w.typeIn s = some t ∧ w.storageOf s = some v

theorem World.Holds.set (hv : w.Holds s t v) (v' : Value) : (w.setStorage s v').Holds s t v' := by
  have hx := find?_isSome_of_occupied (typeIn_eq_some_iff.mp hv.1).1
  exact ⟨(typeIn_setStorage ..).trans hv.1, storageOf_setStorage_self _ hx⟩

theorem World.Holds.counts (hv : w.Holds s t v) (hc : w.Counts w') : w'.Holds s t v :=
  ⟨(hc.calm.type s).trans hv.1, (hc.storage s).trans hv.2⟩

theorem World.Holds.setHandle (hv : w.Holds s t v) (hp : p ≠ .inside s) (h : Handle) : (w.setHandle p h).Holds s t v :=
  ⟨(typeIn_congr (controlOf_setHandle ..)).trans hv.1, (storageOf_setHandle_of_ne hp h).trans hv.2⟩

/-! ### Handles that are handed on -/

theorem keepHandle_holds {a : Act Handle} (hinto : w.Vacant into)
    (ha : Ends a w (fun _ u => u.Holds s t v) (fun f _ => w.Overflows f)) :
    Ends (a >>= keepHandle into) w (fun b u => b = .done ∧ u.Holds s t v) (fun f _ => w.Overflows f) := by
  have hne : into ≠ .inside s := by
    rintro rfl
    exact absurd hinto.1 (by simp [Holder.isOwn])
  rw [ends_bind]
  refine ha.mono ?_ fun _ _ h => h
  intro g u hu
  unfold keepHandle
  rw [ends_bind, ends_of_ok (writeHandle_apply ..)]
  exact ⟨rfl, hu.setHandle hne g⟩

theorem castByMove_holds (hw : w.Sound M) (hl : w.live? p = some h) (hp : p ≠ .inside s) (hv : w.Holds s t v) :
    Ends (castByMove elem p) w (fun _ u => u.Holds s t v) (fun f _ => w.Overflows f) := by
  by_cases hc : h.CastsTo w elem
  · obtain ⟨x, hx, hh⟩ := hc
    exact (ends_of_ok (castByMove_of_holds hw hl hx hh)).mpr (hv.setHandle hp _)
  · exact (ends_of_ok (castByMove_of_not_castsTo hl hc)).mpr hv

/-! ### Steps and runs -/

/-- A step that hands a handle on is no access and does nothing to the value. -/
theorem HandleStep.ends_handsOn (hl : st.looksThrough = none) (hd : st.direct v = (.ok .done, v))
    (h : Ends st.run w (fun b u => b = .done ∧ u.Holds s t v) (fun f _ => w.Overflows f)) :
    Ends st.run w
      (fun a w' => (st.direct v).1 = .ok a ∧ w'.Holds s t (st.direct v).2)
      (fun f w' => (∃ thrown, f = .exception thrown ∧ (st.direct v).1 = .error thrown ∧ w'.Holds s t (st.direct v).2) ∨
        st.looksThrough = none ∧ w.Overflows f) := by
  rw [hd]
  exact h.mono (fun a u h => ⟨by rw [h.1], h.2⟩) fun f u h => .inr ⟨hl, h⟩

/-- A use of a value is the direct one.  Only a handle that is copied may fail, when it cannot be counted any more. -/
theorem HandleStep.Uses.ends (hu : st.Uses w s) (hw : w.Sound M) (hv : w.Holds s t v) (ht : v.type = t) :
    Ends st.run w
      (fun a w' => (st.direct v).1 = .ok a ∧ w'.Holds s t (st.direct v).2)
      (fun f w' => (∃ thrown, f = .exception thrown ∧ (st.direct v).1 = .error thrown ∧ w'.Holds s t (st.direct v).2) ∨
        st.looksThrough = none ∧ w.Overflows f) := by
  obtain ⟨ha, hplace⟩ := hu
  cases st with
  | dereference p =>
    obtain ⟨h, hl, hs, hview⟩ := hplace
    obtain ⟨h', hl', hb⟩ := ha
    obtain rfl : h = h' := Option.some_inj.mp (hl.symm.trans hl')
    unfold HandleStep.run lookThrough
    rw [ends_bind, ends_of_ok (readHandle_apply hl), if_neg (by simp [hview]), ends_bind]
    refine (dereference_ends hw (hw.refersIn_of_live hl) hb hview).mono ?_ fun _ _ h => absurd h (Handle.not_failsEmpty hs)
    rintro v' w' ⟨rfl, s', hs', hleads⟩
    obtain ⟨rfl, rfl⟩ := hleads.eq hs' hs hv.2
    exact ⟨rfl, hv⟩
  | change p f =>
    obtain ⟨h, hl, hs⟩ := hplace
    obtain ⟨-, h', hl', hb, hview⟩ := ha
    obtain rfl : h = h' := Option.some_inj.mp (hl.symm.trans hl')
    unfold HandleStep.run
    rw [ends_bind, ends_of_ok (readHandle_apply hl), ends_bind]
    refine (changeThrough_ends hw (hw.refersIn_of_live hl) hb hview f).mono ?_ fun _ _ h => absurd h (Handle.not_failsEmpty hs)
    rintro - w' ⟨s', v', hs', hleads, rfl⟩
    obtain ⟨rfl, rfl⟩ := hleads.eq hs' hs hv.2
    exact ⟨rfl, hv.set _⟩
  | readItem p i =>
    obtain ⟨h, hl, hs, hi⟩ := hplace
    obtain ⟨h', hl', hb⟩ := ha
    obtain rfl : h = h' := Option.some_inj.mp (hl.symm.trans hl')
    unfold HandleStep.run
    rw [ends_bind, ends_of_ok (readHandle_apply hl), ends_bind]
    refine (readItem_ends hw (hw.refersIn_of_live hl) hb i).mono ?_ fun _ _ h => absurd h (Handle.not_failsAt hs hi)
    rintro n w' ⟨rfl, s', v', hs', hleads, rfl⟩
    obtain ⟨rfl, rfl⟩ := hleads.eq hs' hs hv.2
    exact ⟨rfl, hv⟩
  | writeItem p i n =>
    obtain ⟨h, hl, hs, hi⟩ := hplace
    obtain ⟨h', hl', hb, -, -⟩ := ha
    obtain rfl : h = h' := Option.some_inj.mp (hl.symm.trans hl')
    unfold HandleStep.run
    rw [ends_bind, ends_of_ok (readHandle_apply hl), ends_bind]
    refine (writeItem_ends hw (hw.refersIn_of_live hl) hb i n).mono ?_ fun _ _ h => absurd h (Handle.not_failsAt hs hi)
    rintro - w' ⟨s', v', hs', hleads, rfl⟩
    obtain ⟨rfl, rfl⟩ := hleads.eq hs' hs hv.2
    exact ⟨rfl, hv.set _⟩
  | call p m =>
    obtain ⟨h, hl, hs⟩ := hplace
    obtain ⟨h', face, hl', hface, -, -⟩ := ha
    obtain rfl : h = h' := Option.some_inj.mp (hl.symm.trans hl')
    have hview : h.elem.isView := by
      unfold Ty.isView
      rw [hface]
      rfl
    unfold HandleStep.run
    simp only [HandleStep.direct]
    rw [ends_bind, ends_of_ok (readHandle_apply hl), ends_bind]
    refine (dereferenceView_ends (hw.refersIn_of_live hl) hview).mono ?_ fun _ _ h => absurd h (Handle.not_failsEmpty hs)
    rintro view w' ⟨rfl, s', t', hs', ht', rfl⟩
    obtain rfl : s = s' := Option.some_inj.mp (hs.symm.trans hs')
    obtain rfl : t = t' := Option.some_inj.mp (hv.1.symm.trans ht')
    have happly := callThrough_apply hv.2 ht m
    rw [ends_bind]
    cases hresult : (v.call m).result with
    | ok d =>
      rw [hresult] at happly
      exact (ends_of_ok happly).mpr ⟨rfl, hv.set _⟩
    | error thrown =>
      rw [hresult] at happly
      exact (ends_of_error happly).mpr (.inl ⟨thrown, rfl, rfl, hv.set _⟩)
  | constructByMove into elem source =>
    obtain ⟨hinto, h, hl, -⟩ := ha
    have hmove : Ends (moveHandle elem source) w (fun _ u => u.Holds s t v) (fun f _ => w.Overflows f) :=
      (ends_of_ok (moveHandle_apply hl elem)).mpr (hv.setHandle hplace _)
    exact HandleStep.ends_handsOn rfl rfl (keepHandle_holds hinto hmove)
  | constructByCopy into elem source =>
    obtain ⟨hinto, h, hl, hf, hc⟩ := ha
    have hcopy := (copyHandle_ends hw hl hf hc).mono (fun _ _ h => hv.counts h.2) fun _ _ h => h
    exact HandleStep.ends_handsOn rfl rfl (keepHandle_holds hinto hcopy)
  | castByMove into elem source =>
    obtain ⟨hinto, -, h, hl⟩ := ha
    exact HandleStep.ends_handsOn rfl rfl (keepHandle_holds hinto (castByMove_holds hw hl hplace hv))
  | castByCopy into elem source =>
    obtain ⟨hinto, he, h, hl, hf⟩ := ha
    have hcast := (castByCopy_ends hw hl hf he).mono (fun _ _ h => hv.counts h.2) fun _ _ h => h
    exact HandleStep.ends_handsOn rfl rfl (keepHandle_holds hinto hcast)
  | _ => exact hplace.elim

theorem HandleStep.Uses.gives {r : Except Thrown Answer} (hu : st.Uses w s) (hw : w.Sound M) (hv : w.Holds s t v)
    (ht : v.type = t) (hg : st.Gives w r u) : r = (st.direct v).1 ∧ u.Holds s t (st.direct v).2 := by
  have hends := hu.ends hw hv ht
  cases r with
  | ok a =>
    obtain ⟨hr, hu⟩ := hends.ok hg
    exact ⟨hr.symm, hu⟩
  | error thrown =>
    rcases hends.error hg with ⟨_, hthrown, hr, hu⟩ | ⟨-, hf, -⟩
    · cases hthrown
      exact ⟨hr.symm, hu⟩
    · cases hf

/-- A use of a value can be completed, unless one handle more cannot be counted. -/
theorem HandleStep.Uses.exists_gives (hu : st.Uses w s) (hw : w.Sound M) (hv : w.Holds s t v) (ht : v.type = t) :
    (∃ r u, st.Gives w r u) ∨ st.looksThrough = none ∧ w.Overfull := by
  have hends := hu.ends hw hv ht
  cases hrun : st.run w with
  | ok a u => exact .inl ⟨.ok a, u, hrun⟩
  | error f u =>
    rcases hends.error hrun with ⟨thrown, rfl, -⟩ | ⟨hlook, -, hfull⟩
    · exact .inl ⟨.error thrown, u, hrun⟩
    · exact .inr ⟨hlook, hfull⟩

theorem Attained.type_of_holds (hs : AllEmpty slots) (hr : Attained slots w) (hv : w.Holds s t v) : v.type = t := by
  obtain ⟨⟨lost, hw⟩, -⟩ := hr.sound hs
  obtain ⟨v', hv', ht⟩ := hw.balanced.value_of_type hv.1
  rwa [← Option.some_inj.mp (hv.2.symm.trans hv')] at ht

/-- A run of uses gives the results of the direct ones, one by one, and leaves the value that they leave. -/
theorem UseRun.is_direct {uses : List (HandleStep × Except Thrown Answer)} (hs : AllEmpty slots) (hr : Attained slots w)
    (hv : w.Holds s t v) (hu : UseRun s w uses w') :
    uses.map Prod.snd = (directly v (uses.map Prod.fst)).1 ∧ w'.Holds s t (directly v (uses.map Prod.fst)).2 ∧
      Attained slots w' := by
  induction hu generalizing v with
  | nil => exact ⟨rfl, hv, hr⟩
  | cons huse hgives _ ih =>
    obtain ⟨⟨lost, hw⟩, -⟩ := hr.sound hs
    obtain ⟨rfl, hv'⟩ := huse.gives hw hv (hr.type_of_holds hs hv) hgives
    obtain ⟨hresults, hlast, hr'⟩ := ih (.step _ hr huse.1 hgives.completes) hv'
    exact ⟨congrArg (List.cons _) hresults, hlast, hr'⟩

/-- In every world of a handle program the view of a handle that is not empty is one of the value last constructed in
its slot, at the address and by the operations of that value.  However accesses through the handle and through any
other handles to the slot follow one another, they give the results and exceptions of the same operations on the value
itself, and leave the value that these leave. -/
theorem calls_reach_constructed {q : Qualifiers} {face : Interface} (hs : AllEmpty slots) (hr : Attained slots w)
    (hl : w.live? p = some h) (he : h.elem = .view q face) (hslot : h.slot = some s) :
    ∃ t v, w.Holds s t v ∧ v.type = t ∧ (lifeOf s w.trace).getLast? = some (.constructed s t) ∧
      face.satisfiedBy t.ty ∧ h.ref = .view ⟨some (.startOf s), some t, some t⟩ ∧
      ∀ uses w', UseRun s w uses w' →
        uses.map Prod.snd = (directly v (uses.map Prod.fst)).1 ∧ w'.Holds s t (directly v (uses.map Prod.fst)).2 ∧
          ∀ st : HandleStep, st.Uses w' s → (∃ r u, st.Gives w' r u) ∨ st.looksThrough = none ∧ w'.Overfull := by
  obtain ⟨⟨lost, hw⟩, -⟩ := hr.sound hs
  obtain ⟨t, ht, hd⟩ := (Handle.refersIn_of_slot_eq_some hslot).mp (hw.refersIn_of_live hl)
  obtain ⟨v, hv, hvt⟩ := hw.balanced.value_of_type ht
  rw [he] at hd
  refine ⟨t, v, ⟨ht, hv⟩, hvt, hr.getLast?_lifeOf hs ht, hd.1, hd.2, ?_⟩
  intro uses w' hu
  obtain ⟨hresults, hlast, hr'⟩ := hu.is_direct hs hr ⟨ht, hv⟩
  obtain ⟨⟨lost', hw'⟩, -⟩ := hr'.sound hs
  exact ⟨hresults, hlast, fun st hst => hst.exists_gives hw' hlast (hr'.type_of_holds hs hlast)⟩

/-! ### A gadget that counts to three -/

/-- A program that holds a gadget by what it counts with; the slot holds the gadget and what it has counted. -/
def gadgetAt (count : Int32) (held : Table Holder Handle) : World where
  slots := [(.numbered 0, ⟨⟨.occupied, 1, some (.single .gadget), 0, 64⟩, some (.gadget 5 count)⟩),
    (.numbered 1, ⟨.fresh 64 64, none⟩)]
  held := held
  bag := []
  values := []
  trace := [.constructed (.numbered 0) (.single .gadget)]

def counterHandle : Handle :=
  ⟨.unique, .view .none .counter, some (.numbered 0), .view (.of (.startOf (.numbered 0)) (.single .gadget))⟩

def gadgetHandle : Handle := ⟨.unique, .ofKind .gadget, some (.numbered 0), .object (some (.startOf (.numbered 0)))⟩

/-- Count on, count too far, and look at the gadget after a cast. -/
def countingUses : List (HandleStep × Except Thrown Answer) :=
  [(.call (.named "counter") .next, .ok (.datum (.word 3))),
    (.call (.named "counter") .next, .error (.runtimeError "exhausted")),
    (.castByMove (.named "gadget") (.ofKind .gadget) (.named "counter"), .ok .done),
    (.dereference (.named "gadget"), .ok (.value (.gadget 5 3)))]

theorem attained_gadget : Attained twoSlots (gadgetAt 2 [(.named "counter", counterHandle)]) :=
  .step (.make (.named "counter") (.numbered 0) .unique (.view .none .counter) (.arguments (Seed.plain (.gadget 5 2)))
    false) .start ⟨⟨rfl, rfl⟩, rfl, rfl, rfl, rfl, rfl⟩ (.returned _ rfl)

theorem useRun_gadget : UseRun (.numbered 0) (gadgetAt 2 [(.named "counter", counterHandle)]) countingUses
    (gadgetAt 3 [(.named "counter", counterHandle.cleared), (.named "gadget", gadgetHandle)]) := by
  have hcall : ∀ n, (HandleStep.call (.named "counter") .next).Uses (gadgetAt n [(.named "counter", counterHandle)])
      (.numbered 0) := fun n => ⟨⟨counterHandle, .counter, rfl, rfl, rfl, fun _ => rfl⟩, counterHandle, rfl, rfl⟩
  refine .cons (hcall 2) (u := gadgetAt 3 [(.named "counter", counterHandle)]) rfl ?_
  refine .cons (hcall 3) (u := gadgetAt 3 [(.named "counter", counterHandle)]) rfl ?_
  refine .cons ⟨⟨⟨rfl, rfl⟩, rfl, counterHandle, rfl⟩, by decide⟩ rfl ?_
  exact .cons ⟨⟨gadgetHandle, rfl, rfl⟩, gadgetHandle, rfl, rfl, rfl⟩ rfl (.nil _)

/-- The counter counts the gadget in the slot, and the gadget is what the counter has counted. -/
theorem calls_reach_constructed_gadget : AllEmpty twoSlots ∧
    Attained twoSlots (gadgetAt 2 [(.named "counter", counterHandle)]) ∧
    UseRun (.numbered 0) (gadgetAt 2 [(.named "counter", counterHandle)]) countingUses
      (gadgetAt 3 [(.named "counter", counterHandle.cleared), (.named "gadget", gadgetHandle)]) ∧
    countingUses.map Prod.snd = (directly (.gadget 5 2) (countingUses.map Prod.fst)).1 := by
  obtain ⟨t, v, hv, -, -, -, -, hruns⟩ := calls_reach_constructed allEmpty_twoSlots attained_gadget
    (show (gadgetAt 2 _).live? (.named "counter") = some counterHandle from rfl) rfl rfl
  obtain rfl : .gadget 5 2 = v := Option.some_inj.mp hv.2
  exact ⟨allEmpty_twoSlots, attained_gadget, useRun_gadget, (hruns _ _ useRun_gadget).1⟩

end SlotHandles
