import SlotHandles.Proofs.Mirrors

/-!
# Steps of the two families

A step with exclusive handles and its counterpart with shared ones, from worlds that mirror each other.  They end alike and
leave worlds that mirror each other (`World.Mirrors.step`); what can be written in one world can be written in the other
(`World.Mirrors.admissible`).

The families go about an assignment in different orders: an exclusive target is reset before its source is read, a shared
one lets go of its old value after its source was taken away.  Unless the assignment tears down one of the two places, both
come to the same.
-/

namespace SlotHandles

open World

variable {w w' u u' : World} {st : HandleStep} {s : SlotId} {p q into source target : Holder}
  {h g old : Handle} {v : Value} {elem : Ty} {M N : Multiset Handle}

/-- How the counterpart of a step ends, given how the step ends. -/
def HandleStep.counterpartOutcome : Except Failure Answer → Except Failure Answer
  | .ok a => .ok a.counterpart
  | .error f => .error f.counterpart

namespace HandleStep

/-- The step and its counterpart end alike, in worlds that mirror each other. -/
def GoesAlong (st : HandleStep) (w u : World) : Prop :=
  st.counterpart.outcome u = counterpartOutcome (st.outcome w) ∧ (st.after w).Mirrors [] (st.counterpart.after u)

theorem goesAlong_of_ok {a : Answer} (hrun : st.run w = .ok a w') (hrun' : st.counterpart.run u = .ok a.counterpart u')
    (hm : w'.Mirrors [] u') : st.GoesAlong w u := by
  obtain ⟨ho, ha⟩ := outcome_after_of_ok hrun
  obtain ⟨ho', ha'⟩ := outcome_after_of_ok hrun'
  unfold GoesAlong
  rw [ho, ho', ha, ha']
  exact ⟨rfl, hm⟩

theorem goesAlong_of_error {f : Failure} (hrun : st.run w = .error f w')
    (hrun' : st.counterpart.run u = .error f.counterpart u') (hm : w'.Mirrors [] u') : st.GoesAlong w u := by
  obtain ⟨ho, ha⟩ := outcome_after_of_error hrun
  obtain ⟨ho', ha'⟩ := outcome_after_of_error hrun'
  unfold GoesAlong
  rw [ho, ho', ha, ha']
  exact ⟨rfl, hm⟩

/-- What an action that ends the step appends to is still in the trace. -/
theorem trace_after {a : Act Answer} (ha : Extends a) (hrun : st.run w = a w') : w'.trace <+: (st.after w).trace := by
  have h := ha w'
  unfold Ends at h
  unfold after
  rw [hrun]
  cases e : a w' with
  | ok x u => rwa [e] at h
  | error f u => rwa [e] at h

end HandleStep

/-- The handle that a new value stores is exclusive, unless the value is a shared node. -/
theorem Seed.IsNew.family_eq {seed : Seed} (hn : seed.IsNew) (ht : seed.type ≠ .single .snode)
    (hg : seed.value.next? = some g) : g.family = .unique := by
  rw [hn.2] at hg
  generalize seed.type = t at ht hg
  cases t with
  | collection => cases hg
  | single k =>
    cases k with
    | snode => exact absurd rfl ht
    | node =>
      cases hg
      rfl
    | _ => cases hg

/-! ### What assignments do -/

theorem run_assignByMove_self (h : target = source) (w : World) :
    (HandleStep.assignByMove target source).run w = .ok .done w := bind_of_ok (assignByMove_self h w)

/-- An assignment to an exclusive handle: the release runs while the target is empty already and the source is not. -/
theorem run_assignByMove_unique (hw : w.Sound M) (ht : w.live? target = some old) (hs : w.live? source = some h)
    (hf : old.family = .unique) (hne : target ≠ source)
    (hund : (HandleStep.assignByMove target source).Undisturbed w ((HandleStep.assignByMove target source).after w)) :
    ∃ w₂, release old (w.setHandle target old.cleared) = .ok () w₂ ∧
      (∀ p ∈ [source, target], ¬ (w.setHandle target old.cleared).TornAt w₂ p) ∧
      w₂.live? target = some old.cleared ∧ w₂.live? source = some h ∧
      (HandleStep.assignByMove target source).run w =
        .ok .done ((w₂.setHandle source h.cleared).setHandle target (h.convert old.elem)) := by
  obtain ⟨w₂, hrelease, -, hsheds⟩ := (hw.lift ht).release
  have hrest : (HandleStep.assignByMove target source).run w =
      ((moveHandle old.elem source >>= fun new => writeHandle target new) >>= fun _ => pure Answer.done) w₂ := by
    have hassign : assignByMove target source w =
        (moveHandle old.elem source >>= fun new => writeHandle target new) w₂ := by
      rw [assignByMove_of_unique ht hf hne]
      exact bind_of_ok ((resetHandle_apply hw ht).trans hrelease)
    exact bind_congr_of_eq hassign
  -- what is torn down by the release is torn down by the assignment
  have hafter := HandleStep.trace_after (extends_bind (extends_bind (extends_moveHandle old.elem source) fun new =>
    extends_writeHandle target new) fun _ => extends_pure Answer.done) hrest
  have hcalm := (calm_setHandle w target old.cleared).trace
  have htorn : ∀ p ∈ [source, target], ¬ (w.setHandle target old.cleared).TornAt w₂ p := by
    intro p hp ht
    rcases List.mem_pair.mp hp with rfl | rfl
    · exact not_upsets hund (.inr (ht.widen hcalm hafter))
    · exact not_upsets hund (.inl (ht.widen hcalm hafter))
  have htarget : w₂.live? target = some old.cleared :=
    (live?_of_sheds hsheds (htorn target (by simp))).trans (live?_setHandle_self ht _)
  have hsource : w₂.live? source = some h :=
    (live?_of_sheds hsheds (htorn source (by simp))).trans ((live?_setHandle_of_ne (Ne.symm hne) _).trans hs)
  refine ⟨w₂, hrelease, htorn, htarget, hsource, hrest.trans ?_⟩
  exact bind_of_ok (bind_of_ok (moveHandle_apply hsource old.elem))

/-- An assignment to a shared handle: the release runs while the source is empty already and the target is not. -/
theorem run_assignByMove_shared (ht : w.live? target = some old) (hs : w.live? source = some h)
    (hf : old.family = .shared) (hne : target ≠ source)
    (hrelease : release old (w.setHandle source h.cleared) = .ok () w') :
    (HandleStep.assignByMove target source).run w = .ok .done (w'.setHandle target (h.convert old.elem)) := by
  have hassign : assignByMove target source w = .ok () (w'.setHandle target (h.convert old.elem)) := by
    rw [assignByMove_of_shared ht hf hs hne, bind_of_ok hrelease, writeHandle_apply]
  exact bind_of_ok hassign

namespace World.Mirrors

/-! ### Steps that can be written -/

theorem vacant (hm : w.Mirrors [] u) (hp : w.Vacant p) : u.Vacant p := by
  refine ⟨hp.1, ?_⟩
  rw [← live?_own hp.1, hm.live p List.not_mem_nil, live?_own hp.1, hp.2]
  rfl

/-- What can be written with exclusive handles can be written with shared ones. -/
theorem admissible (hm : w.Mirrors [] u) (ha : st.Admissible w) (hst : st.IsMoveOnly) :
    st.counterpart.Admissible u := by
  have live : ∀ {p : Holder} {h : Handle}, w.live? p = some h → u.live? p = some h.counterpart := hm.live_counterpart
  cases st with
  | empty into family elem => exact ⟨hm.vacant ha.1, (Ty.isElement_counterpart elem).trans ha.2⟩
  | make into s family elem origin throwing =>
    obtain ⟨hinto, hx, ho, hallowed, hn⟩ := ha
    refine ⟨hm.vacant hinto, (hm.isSome_find? s).trans hx, ?_, Origin.isAllowed_counterpart hallowed hst.2, ?_⟩
    · rw [Origin.type_counterpart, StoredType.ty_counterpart, Ty.owns_counterpart]
      exact ho
    · rw [Origin.seed_counterpart]
      exact hn.counterpart
  | constructByMove into elem source =>
    obtain ⟨hinto, h, hl, hc⟩ := ha
    exact ⟨hm.vacant hinto, h.counterpart, live hl, (Ty.convertible_counterpart elem h.elem).trans hc⟩
  | assignByMove target source =>
    obtain ⟨old, h, ht, hs, hf, hc⟩ := ha
    exact ⟨old.counterpart, h.counterpart, live ht, live hs, congrArg Family.counterpart hf,
      (Ty.convertible_counterpart old.elem h.elem).trans hc⟩
  | reset p =>
    obtain ⟨h, hl⟩ := ha
    exact ⟨h.counterpart, live hl⟩
  | destroy p =>
    obtain ⟨hown, h, hl⟩ := ha
    rw [← live?_own hown] at hl
    refine ⟨hown, h.counterpart, ?_⟩
    rw [← live?_own hown]
    exact live hl
  | swap p q =>
    obtain ⟨a, b, hp, hq, hf, he⟩ := ha
    exact ⟨a.counterpart, b.counterpart, live hp, live hq, congrArg Family.counterpart hf, congrArg Ty.counterpart he⟩
  | castByMove into elem source =>
    obtain ⟨hinto, hconcrete, h, hl⟩ := ha
    exact ⟨hm.vacant hinto, (Ty.isConcrete_counterpart elem).trans hconcrete, h.counterpart, live hl⟩
  | dereference p | readItem p i =>
    obtain ⟨h, hl, hb⟩ := ha
    exact ⟨h.counterpart, live hl, (Ty.isBlock_counterpart h.elem).trans hb⟩
  | call p m =>
    obtain ⟨h, face, hl, hface, hm, -⟩ := ha
    refine ⟨h.counterpart, face, live hl, (Ty.face?_counterpart h.elem).trans hface, hm, fun hmod => ?_⟩
    rw [show m.modifies = false from hst] at hmod
    cases hmod
  | constructByCopy | assignByCopy | castByCopy | take | destroyTaken | change | writeItem => exact hst.elim

/-! ### Steps that make and move handles -/

theorem goesAlong_make {family : Family} {o : Origin} {throwing : Bool} (hm : w.Mirrors [] u) (hw : w.Sound M)
    (hu : u.Sound N) (ha : (HandleStep.make into s family elem o throwing).Admissible w)
    (hst : (HandleStep.make into s family elem o throwing).IsMoveOnly) :
    (HandleStep.make into s family elem o throwing).GoesAlong w u := by
  obtain ⟨hinto, hx, -, -, hn⟩ := ha
  obtain ⟨rfl, ho⟩ := hst
  have hn' : o.counterpart.seed.IsNew := by
    rw [Origin.seed_counterpart]
    exact hn.counterpart
  have hrun := run_make_apply into .unique elem hw.balanced.distinct hx hn throwing
  have hrun' := run_make_apply into .shared elem.counterpart hu.balanced.distinct ((hm.isSome_find? s).trans hx) hn'
    throwing
  have hplace := o.placement_counterpart (hm.frames s)
  generalize o.placement (w.controlOf s) = a at hrun hplace
  generalize o.counterpart.placement (u.controlOf s) = b at hrun' hplace
  cases hplace with
  | refused e =>
    cases throwing with
    | true => exact HandleStep.goesAlong_of_error hrun hrun' hm
    | false => exact HandleStep.goesAlong_of_ok hrun hrun' hm
  | threw t hes => exact HandleStep.goesAlong_of_error hrun hrun' (hm.log hes)
  | built hes =>
    refine HandleStep.goesAlong_of_ok hrun hrun' ?_
    have hbuilt := hm.built hx (fun g hg => hn.family_eq ho hg) hes
    have hkept := hbuilt.setHandle_own (g := madeHandle .unique elem s o) hinto.1 rfl
    rw [madeHandle_counterpart] at hkept
    rw [Origin.seed_counterpart]
    exact hkept

theorem goesAlong_constructByMove (hm : w.Mirrors [] u)
    (ha : (HandleStep.constructByMove into elem source).Admissible w) :
    (HandleStep.constructByMove into elem source).GoesAlong w u := by
  obtain ⟨hinto, h, hl, -⟩ := ha
  have hf := hm.exclusive source h hl
  have hl' := hm.live_counterpart hl
  refine HandleStep.goesAlong_of_ok (bind_of_ok (moveHandle_apply hl elem))
    (bind_of_ok (moveHandle_apply hl' elem.counterpart)) ?_
  have hmoved := hm.setHandle_live List.not_mem_nil hl (g := h.cleared) hf
  have hkept := hmoved.setHandle_own (g := h.convert elem) hinto.1 ((Handle.family_convert ..).trans hf)
  rw [Handle.counterpart_cleared, Handle.counterpart_convert] at hkept
  exact hkept

theorem goesAlong_swap (hm : w.Mirrors [] u) (ha : (HandleStep.swap p q).Admissible w) :
    (HandleStep.swap p q).GoesAlong w u := by
  obtain ⟨a, b, hp, hq, -, -⟩ := ha
  refine HandleStep.goesAlong_of_ok (bind_of_ok (swapHandles_apply hp hq))
    (bind_of_ok (swapHandles_apply (hm.live_counterpart hp) (hm.live_counterpart hq))) ?_
  have hfirst := hm.setHandle_live List.not_mem_nil hp (g := b) (hm.exclusive q b hq)
  obtain ⟨k, hk⟩ : ∃ k, (w.setHandle p b).live? q = some k := by
    by_cases hpq : q = p
    · exact ⟨b, hpq ▸ live?_setHandle_self hp b⟩
    · exact ⟨b, (live?_setHandle_of_ne hpq b).trans hq⟩
  exact hfirst.setHandle_live List.not_mem_nil hk (hm.exclusive p a hp)

theorem goesAlong_castByMove (hm : w.Mirrors [] u) (hw : w.Sound M) (hu : u.Sound N)
    (ha : (HandleStep.castByMove into elem source).Admissible w) :
    (HandleStep.castByMove into elem source).GoesAlong w u := by
  obtain ⟨hinto, -, h, hl⟩ := ha
  have hf := hm.exclusive source h hl
  have hl' := hm.live_counterpart hl
  have hholds : ∀ s, (u.controlOf s).holds elem.counterpart = (w.controlOf s).holds elem := fun s =>
    ControlBlock.holds_counterpart (hm.type s) elem
  by_cases hc : h.CastsTo w elem
  · obtain ⟨s, hs, hh⟩ := hc
    refine HandleStep.goesAlong_of_ok (bind_of_ok (castByMove_of_holds hw hl hs hh))
      (bind_of_ok (castByMove_of_holds hu hl' hs ((hholds s).trans hh))) ?_
    have hmoved := hm.setHandle_live List.not_mem_nil hl (g := h.cleared) hf
    have hkept := hmoved.setHandle_own (g := h.restored elem s) hinto.1 hf
    rw [Handle.counterpart_cleared] at hkept
    exact hkept
  · have hc' : ¬ h.counterpart.CastsTo u elem.counterpart := by
      rintro ⟨s, hs, hh⟩
      exact hc ⟨s, hs, (hholds s).symm.trans hh⟩
    refine HandleStep.goesAlong_of_ok (bind_of_ok (castByMove_of_not_castsTo hl hc))
      (bind_of_ok (castByMove_of_not_castsTo hl' hc')) ?_
    have hkept := hm.setHandle_own (g := .empty h.family elem) hinto.1 hf
    rw [Handle.counterpart_empty] at hkept
    exact hkept

/-! ### Steps that let go of handles -/

theorem goesAlong_reset (hm : w.Mirrors [] u) (hw : w.Sound M) (hu : u.Sound N)
    (ha : (HandleStep.reset p).Admissible w) : (HandleStep.reset p).GoesAlong w u := by
  obtain ⟨h, hl⟩ := ha
  have hf := hm.exclusive p h hl
  have hl' := hm.live_counterpart hl
  obtain ⟨w', hrun, -, -⟩ := (hw.lift hl).release
  have hmoved := hm.setHandle_live List.not_mem_nil hl (g := h.cleared) hf
  rw [Handle.counterpart_cleared] at hmoved
  obtain ⟨u', hrun', hm', -⟩ := hmoved.release (hw.lift hl) hf hrun fun _ hp => absurd hp List.not_mem_nil
  exact HandleStep.goesAlong_of_ok (bind_of_ok ((resetHandle_apply hw hl).trans hrun))
    (bind_of_ok ((resetHandle_apply hu hl').trans hrun')) hm'

theorem goesAlong_destroy (hm : w.Mirrors [] u) (hw : w.Sound M) (ha : (HandleStep.destroy p).Admissible w) :
    (HandleStep.destroy p).GoesAlong w u := by
  obtain ⟨hown, h, hfind⟩ := ha
  have hl : w.live? p = some h := (live?_own hown w).trans hfind
  have hl' := hm.live_counterpart hl
  obtain ⟨w', hrun, -, -⟩ := (hw.remove hfind).release
  obtain ⟨u', hrun', hm', -⟩ := (hm.removeHeld hown).release (hw.remove hfind) (hm.exclusive p h hl) hrun
    fun _ hp => absurd hp List.not_mem_nil
  have hdestroy : ∀ {x y : World} {h : Handle}, x.live? p = some h →
      SlotHandles.release h { x with held := x.held.remove p } = .ok () y →
      (HandleStep.destroy p).run x = .ok .done y := by
    intro x y h hl hrun
    have hrun' : destroyHandle p x = .ok () y := by
      unfold destroyHandle
      rw [bind_of_ok (readHandle_apply hl)]
      exact hrun
    exact bind_of_ok hrun'
  exact HandleStep.goesAlong_of_ok (hdestroy hl hrun) (hdestroy hl' hrun') hm'

/-- Two handles that an assignment has taken from their places are replaced by what it leaves there. -/
theorem settled (hm : w.Mirrors [source, target] u) (hne : target ≠ source) (hg : g.family = .unique)
    (hh : h.family = .unique) (htarget : w.live? target = some old) (hsource : (w.live? source).isSome)
    (htarget' : (u.live? target).isSome) (hsource' : u.live? source = some h.counterpart) :
    ((w.setHandle source h).setHandle target g).Mirrors [] (u.setHandle target g.counterpart) := by
  obtain ⟨k, hk⟩ := Option.isSome_iff_exists.mp hsource
  obtain ⟨k', hk'⟩ := Option.isSome_iff_exists.mp htarget'
  have hthree := ((hm.setHandle_left source hh).setHandle_left target hg).setHandle_right target g.counterpart
  have htwo : ((w.setHandle source h).setHandle target g).Mirrors [target, source]
      (u.setHandle target g.counterpart) := hthree.mono (by simp)
  refine (htwo.narrow ?_).narrow ?_
  · rw [live?_setHandle_self hk', live?_setHandle_self ((live?_setHandle_of_ne hne _).trans htarget)]
    rfl
  · rw [live?_setHandle_of_ne (Ne.symm hne), live?_setHandle_of_ne (Ne.symm hne), hsource', live?_setHandle_self hk]
    rfl

/-- An exclusive target is reset before its source is read; a shared one lets go of its old value after the source has
been taken away.  In between the worlds differ in both places, which the release leaves alone. -/
theorem goesAlong_assignByMove (hm : w.Mirrors [] u) (hw : w.Sound M)
    (ha : (HandleStep.assignByMove target source).Admissible w)
    (hund : (HandleStep.assignByMove target source).Undisturbed w ((HandleStep.assignByMove target source).after w)) :
    (HandleStep.assignByMove target source).GoesAlong w u := by
  obtain ⟨old, h, ht, hs, -, -⟩ := ha
  have hfo := hm.exclusive target old ht
  have hfh := hm.exclusive source h hs
  have ht' := hm.live_counterpart ht
  have hs' := hm.live_counterpart hs
  by_cases hne : target = source
  · exact HandleStep.goesAlong_of_ok (run_assignByMove_self hne w) (run_assignByMove_self hne u) hm
  obtain ⟨w₂, hrelease, htorn, htarget, hsource, hrun⟩ := run_assignByMove_unique hw ht hs hfo hne hund
  have hm₁ : (w.setHandle target old.cleared).Mirrors [source, target] (u.setHandle source h.counterpart.cleared) :=
    (hm.setHandle_left target (g := old.cleared) hfo).setHandle_right source _
  obtain ⟨u₂, hrelease', hm₂, hkept⟩ := hm₁.release (hw.lift ht) hfo hrelease htorn
  have htarget' : u₂.live? target = some old.counterpart :=
    (hkept target (by simp)).trans ((live?_setHandle_of_ne hne _).trans ht')
  have hsource' : u₂.live? source = some h.cleared.counterpart := by
    rw [hkept source (by simp), live?_setHandle_self hs', Handle.counterpart_cleared]
  have hrun' := run_assignByMove_shared ht' hs' (congrArg Family.counterpart hfo) hne hrelease'
  refine HandleStep.goesAlong_of_ok hrun hrun' ?_
  have hsettled := hm₂.settled hne (g := h.convert old.elem) (h := h.cleared) ((Handle.family_convert ..).trans hfh) hfh
    htarget (by rw [hsource]; rfl) (by rw [htarget']; rfl) hsource'
  rw [Handle.counterpart_convert] at hsettled
  exact hsettled

/-! ### Accesses -/

theorem typeIn_some {t : StoredType} (hm : w.Mirrors [] u) (ht : w.typeIn s = some t) :
    u.typeIn s = some t.counterpart := by
  rw [hm.type, ht]
  rfl

/-- The live value of a slot, in both worlds. -/
theorem exists_value {t : StoredType} (hm : w.Mirrors [] u) (hw : w.Sound M) (ht : w.typeIn s = some t) :
    ∃ v, w.storageOf s = some v ∧ u.storageOf s = some v.counterpart ∧ v.type = t := by
  obtain ⟨v, hv, hvt⟩ := hw.balanced.value_of_type ht
  exact ⟨v, hv, hm.storageOf List.not_mem_nil (typeIn_eq_some_iff.mp ht).1 hv, hvt⟩

theorem goesAlong_dereference (hm : w.Mirrors [] u) (hw : w.Sound M) (hu : u.Sound N)
    (ha : (HandleStep.dereference p).Admissible w) : (HandleStep.dereference p).GoesAlong w u := by
  obtain ⟨h, hl, hb⟩ := ha
  have hl' := hm.live_counterpart hl
  have hrun : (HandleStep.dereference p).run w = lookThrough h w := bind_of_ok (readHandle_apply hl)
  have hrun' : (HandleStep.dereference p).run u = lookThrough h.counterpart u := bind_of_ok (readHandle_apply hl')
  have hr := hw.refersIn_of_live hl
  have hr' := hu.refersIn_of_live hl'
  cases hs : h.slot with
  | none =>
    exact HandleStep.goesAlong_of_error (hrun.trans (lookThrough_of_empty hs w))
      (hrun'.trans (lookThrough_of_empty (h := h.counterpart) hs u)) hm
  | some s =>
    obtain ⟨t, ht, -⟩ := (Handle.refersIn_of_slot_eq_some hs).mp hr
    cases hv : h.elem.isView with
    | true =>
      have hv' : h.counterpart.elem.isView := (Ty.isView_counterpart h.elem).trans hv
      exact HandleStep.goesAlong_of_ok (hrun.trans (lookThrough_of_view hr hv hs ht))
        (hrun'.trans (lookThrough_of_view hr' hv' hs (hm.typeIn_some ht))) hm
    | false =>
      obtain ⟨v, hvw, hvu, -⟩ := hm.exists_value hw ht
      have hv' : h.counterpart.elem.isView = false := (Ty.isView_counterpart h.elem).trans hv
      have hb' : h.counterpart.elem.isBlock = false := (Ty.isBlock_counterpart h.elem).trans hb
      exact HandleStep.goesAlong_of_ok (hrun.trans (lookThrough_of_value hw hr hb hv hs hvw))
        (hrun'.trans (lookThrough_of_value hu hr' hb' hv' hs hvu)) hm

theorem goesAlong_readItem {i : Nat} (hm : w.Mirrors [] u) (hw : w.Sound M) (hu : u.Sound N)
    (ha : (HandleStep.readItem p i).Admissible w) : (HandleStep.readItem p i).GoesAlong w u := by
  obtain ⟨h, hl, hb⟩ := ha
  have hl' := hm.live_counterpart hl
  have hrun : (HandleStep.readItem p i).run w = (readItem h i >>= fun n => pure (Answer.item n)) w :=
    bind_of_ok (readHandle_apply hl)
  have hrun' : (HandleStep.readItem p i).run u = (readItem h.counterpart i >>= fun n => pure (Answer.item n)) u :=
    bind_of_ok (readHandle_apply hl')
  have hr := hw.refersIn_of_live hl
  have hr' := hu.refersIn_of_live hl'
  have hextent : h.counterpart.ref.extent = h.ref.extent := Referent.extent_counterpart h.ref
  cases hs : h.slot with
  | none =>
    exact HandleStep.goesAlong_of_error (hrun.trans (bind_of_error (readItem_of_empty hs i w)))
      (hrun'.trans (bind_of_error (readItem_of_empty (h := h.counterpart) hs i u))) hm
  | some s =>
    obtain ⟨t, ht, -⟩ := (Handle.refersIn_of_slot_eq_some hs).mp hr
    by_cases hi : h.ref.extent ≤ i
    · have hfail' := readItem_of_extent_le (s := s) hr' hs (hextent.symm ▸ hi)
      rw [hextent] at hfail'
      exact HandleStep.goesAlong_of_error (hrun.trans (bind_of_error (readItem_of_extent_le hr hs hi)))
        (hrun'.trans (bind_of_error hfail')) hm
    · obtain ⟨v, hvw, hvu, -⟩ := hm.exists_value hw ht
      have hb' : h.counterpart.elem.isBlock := (Ty.isBlock_counterpart h.elem).trans hb
      have hi' : i < h.counterpart.ref.extent := by omega
      have hitem := readItem_of_lt hu hr' hb' hs hvu hi'
      rw [Value.item?_counterpart] at hitem
      exact HandleStep.goesAlong_of_ok (hrun.trans (bind_of_ok (readItem_of_lt hw hr hb hs hvw (by omega))))
        (hrun'.trans (bind_of_ok hitem)) hm

/-- A call that does not modify the value leaves no trace of itself. -/
theorem goesAlong_call {m : Method} (hm : w.Mirrors [] u) (hw : w.Sound M) (hu : u.Sound N)
    (ha : (HandleStep.call p m).Admissible w) (hst : (HandleStep.call p m).IsMoveOnly) :
    (HandleStep.call p m).GoesAlong w u := by
  obtain ⟨h, face, hl, hface, -, -⟩ := ha
  have hl' := hm.live_counterpart hl
  have hview : h.elem.isView := by
    unfold Ty.isView
    rw [hface]
    rfl
  have hview' : h.counterpart.elem.isView := (Ty.isView_counterpart h.elem).trans hview
  have hrun : (HandleStep.call p m).run w =
      (dereferenceView h >>= fun v => callThrough v m >>= fun d => pure (Answer.datum d)) w :=
    bind_of_ok (readHandle_apply hl)
  have hrun' : (HandleStep.call p m).run u =
      (dereferenceView h.counterpart >>= fun v => callThrough v m >>= fun d => pure (Answer.datum d)) u :=
    bind_of_ok (readHandle_apply hl')
  have hr := hw.refersIn_of_live hl
  have hr' := hu.refersIn_of_live hl'
  cases hs : h.slot with
  | none =>
    have hempty : ∀ {x : World} {k : Handle}, k.slot = none →
        dereferenceView k x = .error (.violation (.dereferencingEmpty k.family)) x := fun hk =>
      bind_of_error (checkAccess_of_empty hk _)
    exact HandleStep.goesAlong_of_error (hrun.trans (bind_of_error (hempty hs)))
      (hrun'.trans (bind_of_error (hempty hs))) hm
  | some s =>
    obtain ⟨t, ht, -⟩ := (Handle.refersIn_of_slot_eq_some hs).mp hr
    obtain ⟨v, hvw, hvu, rfl⟩ := hm.exists_value hw ht
    have hcall := callThrough_apply hvw rfl m
    have hcall' := callThrough_apply hvu (Value.type_counterpart v) m
    rw [Value.after_call v hst, setStorage_storageOf hw.balanced.distinct hvw] at hcall
    rw [Value.after_call v.counterpart hst, setStorage_storageOf hu.balanced.distinct hvu,
      Value.result_call_counterpart] at hcall'
    rw [bind_of_ok (dereferenceView_of_slot hr hview hs ht)] at hrun
    rw [bind_of_ok (dereferenceView_of_slot hr' hview' hs (hm.typeIn_some ht))] at hrun'
    cases hresult : (v.call m).result with
    | ok d =>
      rw [hresult] at hcall hcall'
      exact HandleStep.goesAlong_of_ok (hrun.trans (bind_of_ok hcall)) (hrun'.trans (bind_of_ok hcall')) hm
    | error thrown =>
      rw [hresult] at hcall hcall'
      exact HandleStep.goesAlong_of_error (hrun.trans (bind_of_error hcall)) (hrun'.trans (bind_of_error hcall')) hm

/-! ### Every step -/

/-- A step of a program with exclusive handles and its counterpart go along. -/
theorem step (hm : w.Mirrors [] u) (hw : w.Sound M) (hu : u.Sound N) (ha : st.Admissible w) (hst : st.IsMoveOnly)
    (hund : st.Undisturbed w (st.after w)) : st.GoesAlong w u := by
  cases st with
  | empty into family elem =>
    obtain rfl : family = .unique := hst
    have hkept := hm.setHandle_own (g := .empty .unique elem) ha.1.1 rfl
    rw [Handle.counterpart_empty] at hkept
    exact HandleStep.goesAlong_of_ok rfl rfl hkept
  | make into s family elem o throwing => exact hm.goesAlong_make hw hu ha hst
  | constructByMove into elem source => exact hm.goesAlong_constructByMove ha
  | assignByMove target source => exact hm.goesAlong_assignByMove hw ha hund
  | reset p => exact hm.goesAlong_reset hw hu ha
  | destroy p => exact hm.goesAlong_destroy hw ha
  | swap p q => exact hm.goesAlong_swap ha
  | castByMove into elem source => exact hm.goesAlong_castByMove hw hu ha
  | dereference p => exact hm.goesAlong_dereference hw hu ha
  | readItem p i => exact hm.goesAlong_readItem hw hu ha
  | call p m => exact hm.goesAlong_call hw hu ha hst
  | constructByCopy | assignByCopy | castByCopy | take | destroyTaken | change | writeItem => exact hst.elim

end World.Mirrors

end SlotHandles
