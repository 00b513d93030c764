import SlotHandles.Proofs.Attained
import SlotHandles.Proofs.Blocks
import SlotHandles.Proofs.Separation

/-!
# Worlds that stray in views

The view embedded in an exclusive handle may be overwritten.  Then the handle still owns what it owned, but refers to
something else, so that the world is no longer sound.  It strays from a sound one (`World.StraysFrom`): the two differ in
nothing but the views of some exclusive handles that the program holds.

What a handle refers to is read when its value is accessed, and never when handles are moved, assigned, reset, swapped,
cast or destroyed.  So a step of a handle program goes the same way in both worlds, unless it looks through a view that
may differ (`World.StraysFrom.parallels`).  Most steps name no such handle and read only what the worlds have in common
(`World.StraysFrom.parallels_of_plain`).  The others are compared one by one.
-/

namespace SlotHandles

open World

/-- A handle with a view of its own that can be overwritten. -/
def Handle.IsRedirectable (g : Handle) : Prop := g.family = .unique ∧ g.elem.isView

/-- The handle is the other one, or one of `S` that differs from it in the embedded view. -/
def Handle.Strays (S : Handle → Prop) (h g : Handle) : Prop :=
  h = g ∨ S h ∧ g.IsRedirectable ∧ ∃ v, h = { g with ref := .view v }

/-- The worlds are the same up to the embedded views of handles in `S`. -/
structure World.StraysFrom (S : Handle → Prop) (w u : World) : Prop where
  distinct : w.slots.Distinct
  slots : ∀ s, w.slots.find? s = u.slots.find? s
  values : ∀ name, w.values.find? name = u.values.find? name
  trace : w.trace = u.trace
  held : ∀ p, Option.Rel (Handle.Strays S) (w.held.find? p) (u.held.find? p)

variable {S S' : Handle → Prop} {w w' u u' : World} {p q into source target : Holder} {h g k old : Handle} {s : SlotId}
  {t : StoredType} {elem : Ty} {M : Multiset Handle} {st : HandleStep} {F : Footprint} {v : View}

/-! ### Handles that stray -/

namespace Handle.Strays

theorem refl (S : Handle → Prop) (g : Handle) : g.Strays S g := .inl rfl

theorem family_eq (h : k.Strays S g) : k.family = g.family := by
  rcases h with rfl | ⟨-, -, v, rfl⟩ <;> rfl

theorem elem_eq (h : k.Strays S g) : k.elem = g.elem := by
  rcases h with rfl | ⟨-, -, v, rfl⟩ <;> rfl

theorem slot_eq (h : k.Strays S g) : k.slot = g.slot := by
  rcases h with rfl | ⟨-, -, v, rfl⟩ <;> rfl

theorem cleared_eq (h : k.Strays S g) : k.cleared = g.cleared := by
  rcases h with rfl | ⟨-, -, v, rfl⟩ <;> rfl

/-- What a handle refers to does not matter when it lets go. -/
theorem release_eq (h : k.Strays S g) : release k = release g := by
  rcases h with rfl | ⟨-, -, v, rfl⟩ <;> rfl

theorem restored_eq (h : k.Strays S g) (elem : Ty) (s : SlotId) : k.restored elem s = g.restored elem s := by
  rcases h with rfl | ⟨-, -, v, rfl⟩ <;> rfl

theorem eq_of_not (h : k.Strays S g) (hg : ¬ g.IsRedirectable) : k = g := h.resolve_right fun hr => hg hr.2.1

theorem isRedirectable_iff (h : k.Strays S g) : k.IsRedirectable ↔ g.IsRedirectable := by
  unfold Handle.IsRedirectable
  rw [h.family_eq, h.elem_eq]

end Handle.Strays

theorem Run.eq_of_convertible_view {target source : Ty} (hc : Run.convertible target source)
    (hv : target.isView ∨ source.isView) : target = source := by
  unfold Run.convertible Ty.takesOver at hc
  rcases hv with hv | hv <;> simpa [hv] using hc

/-- Handles with views are held by the program itself. -/
theorem World.Sound.isOwn_of_isView (hw : w.Sound M) (hl : w.live? p = some h) (hv : h.elem.isView) : p.isOwn := by
  refine hw.isOwn_of_ne_ofKind hl fun kind he => ?_
  rw [he] at hv
  cases hv

namespace World.StraysFrom

/-! ### What straying worlds have in common -/

theorem refl (hd : w.slots.Distinct) (S : Handle → Prop) : w.StraysFrom S w := by
  refine ⟨hd, fun _ => rfl, fun _ => rfl, rfl, fun p => ?_⟩
  cases w.held.find? p with
  | none => exact .none
  | some g => exact .some (.refl S g)

theorem mono (hx : w.StraysFrom S u)
    (hS : ∀ p h g, u.held.find? p = some g → h.slot = g.slot → S h → S' h) : w.StraysFrom S' u := by
  refine ⟨hx.distinct, hx.slots, hx.values, hx.trace, fun p => ?_⟩
  have hp := hx.held p
  generalize w.held.find? p = a at hp ⊢
  cases hg : u.held.find? p with
  | none =>
    rw [hg] at hp
    cases hp
    exact .none
  | some g =>
    rw [hg] at hp
    cases hp with
    | some hr => exact .some (hr.imp id fun ⟨hs, hrest⟩ => ⟨hS p _ g hg hr.slot_eq hs, hrest⟩)

theorem controlOf (hx : w.StraysFrom S u) (s : SlotId) : w.controlOf s = u.controlOf s := by
  unfold World.controlOf
  rw [hx.slots]

theorem storageOf (hx : w.StraysFrom S u) (s : SlotId) : w.storageOf s = u.storageOf s := by
  unfold World.storageOf
  rw [hx.slots]

theorem typeIn (hx : w.StraysFrom S u) (s : SlotId) : w.typeIn s = u.typeIn s := typeIn_congr (hx.controlOf s)

theorem object? (hx : w.StraysFrom S u) (r : Region) : w.object? r = u.object? r := by
  cases r with
  | slot s => exact hx.storageOf s
  | named n => exact hx.values n

theorem live? (hx : w.StraysFrom S u) (p : Holder) : Option.Rel (Handle.Strays S) (w.live? p) (u.live? p) := by
  have hsame : ∀ {a b : Option Handle}, a = b → Option.Rel (Handle.Strays S) a b := by
    rintro a _ rfl
    cases a with
    | none => exact .none
    | some g => exact .some (.refl S g)
  cases p with
  | named n | result n => exact hx.held _
  | inside s =>
    apply hsame
    unfold World.live? nestedIn
    dsimp only
    rw [hx.controlOf, hx.storageOf]
  | within n =>
    apply hsame
    unfold World.live? World.handle?
    dsimp only
    rw [hx.values]

theorem exists_live (hx : w.StraysFrom S u) (hl : w.live? p = some h) :
    ∃ g, u.live? p = some g ∧ h.Strays S g := by
  have hp := hx.live? p
  rw [hl] at hp
  cases hg : u.live? p with
  | none =>
    rw [hg] at hp
    cases hp
  | some g =>
    rw [hg] at hp
    cases hp with
    | some hr => exact ⟨g, rfl, hr⟩

theorem exists_strayed (hx : w.StraysFrom S u) (hg : u.live? p = some g) :
    ∃ h, w.live? p = some h ∧ h.Strays S g := by
  have hp := hx.live? p
  rw [hg] at hp
  cases hl : w.live? p with
  | none =>
    rw [hl] at hp
    cases hp
  | some h =>
    rw [hl] at hp
    cases hp with
    | some hr => exact ⟨h, rfl, hr⟩

theorem live_none (hx : w.StraysFrom S u) (hl : w.live? p = none) : u.live? p = none := by
  have hp := hx.live? p
  rw [hl] at hp
  cases hg : u.live? p with
  | none => rfl
  | some g =>
    rw [hg] at hp
    cases hp

theorem vacant (hx : w.StraysFrom S u) (hp : w.Vacant p) : u.Vacant p := by
  refine ⟨hp.1, ?_⟩
  rw [← live?_own hp.1]
  exact hx.live_none ((live?_own hp.1 w).trans hp.2)

theorem live?_eq (hx : w.StraysFrom S u) (hg : ∀ g, u.live? p = some g → ¬ g.IsRedirectable) :
    w.live? p = u.live? p := by
  cases hl : w.live? p with
  | none => exact (hx.live_none hl).symm
  | some h =>
    obtain ⟨g, hgl, hr⟩ := hx.exists_live hl
    rw [hgl, hr.eq_of_not (hg g hgl)]

/-! ### Updates of straying worlds -/

theorem put (hx : w.StraysFrom S u) (hr : h.Strays S g) (p : Holder) :
    ({ w with held := w.held.put p h } : World).StraysFrom S { u with held := u.held.put p g } := by
  refine ⟨hx.distinct, hx.slots, hx.values, hx.trace, fun q => ?_⟩
  by_cases hq : q = p
  · subst hq
    dsimp only
    rw [Table.find?_put_self, Table.find?_put_self]
    exact .some hr
  · dsimp only
    rw [Table.find?_put_of_ne _ _ hq, Table.find?_put_of_ne _ _ hq]
    exact hx.held q

theorem setHandle (hx : w.StraysFrom S u) (hr : h.Strays S g) (hp : p.isOwn) :
    (w.setHandle p h).StraysFrom S (u.setHandle p g) := by
  rw [setHandle_own hp, setHandle_own hp]
  exact hx.put hr p

theorem remove (hx : w.StraysFrom S u) (p : Holder) :
    ({ w with held := w.held.remove p } : World).StraysFrom S { u with held := u.held.remove p } := by
  refine ⟨hx.distinct, hx.slots, hx.values, hx.trace, fun q => ?_⟩
  by_cases hq : q = p
  · subst hq
    dsimp only
    rw [Table.find?_remove_self, Table.find?_remove_self]
    exact .none
  · dsimp only
    rw [Table.find?_remove_of_ne _ hq, Table.find?_remove_of_ne _ hq]
    exact hx.held q

theorem coincide (hx : w.StraysFrom S u) (hF : ∀ p ∈ F.held, w.held.find? p = u.held.find? p) : u.Coincide F w :=
  ⟨fun s _ => (hx.slots s).symm, fun p hp => (hF p hp).symm, fun n _ => (hx.values n).symm⟩

/-- Worlds that go the same way on a footprint still stray in nothing but views. -/
theorem of_together (hx : w.StraysFrom S u) (ht : Together F u u' w w') : w'.StraysFrom S u' := by
  refine ⟨distinct_of_keys ht.right.keys hx.distinct, fun s => ?_, fun n => ?_, ?_, fun p => ?_⟩
  · by_cases hs : s ∈ F.slots
    · exact (ht.coincide.slots s hs).symm
    · rw [ht.right.slots s hs, ht.left.slots s hs, hx.slots]
  · by_cases hn : n ∈ F.values
    · exact (ht.coincide.values n hn).symm
    · rw [ht.right.values n hn, ht.left.values n hn, hx.values]
  · obtain ⟨es, hu, hw, -⟩ := ht.trace
    rw [hw, hu, hx.trace]
  · by_cases hp : p ∈ F.held
    · rw [ht.coincide.held p hp]
      cases w'.held.find? p with
      | none => exact .none
      | some h => exact .some (.refl S h)
    · rw [ht.right.held p hp, ht.left.held p hp]
      exact hx.held p

end World.StraysFrom

/-! ### Letting go -/

/-- The slots that hold values, and the values that were taken out. -/
def World.liveFootprint (u : World) : Footprint := ⟨{s | (u.controlOf s).state = .occupied}, ∅, Set.univ⟩

theorem World.Sound.leadsInto_live (hu : u.Sound M) (hl : u.live? p = some g) : g.LeadsInto u.liveFootprint :=
  (hu.refersIn_of_live hl).leadsInto fun _ hs => (hu.refersIn_of_live hl).occupied hs

theorem World.Sound.closed_live (hu : u.Sound M) : u.Closed u.liveFootprint := by
  refine ⟨fun s hs v hv => ?_, fun p hp => absurd hp (Set.notMem_empty p), fun n _ v hv => ?_⟩
  · obtain ⟨-, hn, hp⟩ := hu.balanced.value_of_storage hs hv
    exact ⟨hp.passive, fun h hh => hu.leadsInto_live (p := .inside s) (hn.trans hh)⟩
  · refine ⟨(hu.proper n v hv).passive, fun h hh => hu.leadsInto_live (p := .within n) ?_⟩
    unfold World.live? World.handle?
    dsimp only
    rw [hv]
    exact hh

namespace World.StraysFrom

/-- A handle is let go of in both worlds alike, and no other handle changes. -/
theorem release (hx : w.StraysFrom S u) (hd : u.slots.Distinct) (hc : u.Closed F) (hF : F.held = ∅)
    (hg : g.LeadsInto F) (hrun : SlotHandles.release g u = .ok () u') :
    ∃ w', SlotHandles.release g w = .ok () w' ∧ w'.StraysFrom S u' ∧
      ∀ q, w'.held.find? q = w.held.find? q ∧ u'.held.find? q = u.held.find? q := by
  have hout : ∀ q, q ∉ F.held := by
    intro q
    rw [hF]
    exact Set.notMem_empty q
  have hco := hx.coincide fun q hq => absurd hq (hout q)
  have haccord := local_release hg u w ⟨hco, hc, hd, hx.distinct⟩
  unfold Accord at haccord
  rw [hrun] at haccord
  cases hrun' : SlotHandles.release g w with
  | error f w' =>
    rw [hrun'] at haccord
    exact haccord.elim
  | ok _ w' =>
    rw [hrun'] at haccord
    obtain ⟨-, -, ht, -⟩ := haccord
    exact ⟨w', rfl, hx.of_together ht, fun q => ⟨ht.right.held q (hout q), ht.left.held q (hout q)⟩⟩

theorem resetHandle (hx : w.StraysFrom S u) (hu : u.Sound M) (hp : p.isOwn) (hl : w.live? p = some h)
    (hg : u.live? p = some g) (hr : h.Strays S g) :
    ∃ w' u', SlotHandles.resetHandle p w = .ok () w' ∧ SlotHandles.resetHandle p u = .ok () u' ∧
      w'.StraysFrom S u' ∧ ∀ q, q.isOwn → q ≠ p → w'.live? q = w.live? q ∧ u'.live? q = u.live? q := by
  by_cases ho : g.family = .unique → g.slot ≠ none
  · obtain ⟨u', hrun, -, -⟩ := (hu.lift hg).release
    have hput := hx.setHandle (.refl S g.cleared) hp
    have hclosed : (u.setHandle p g.cleared).Closed u.liveFootprint := by
      rw [setHandle_own hp]
      exact ⟨hu.closed_live.storage, fun q hq => absurd hq (Set.notMem_empty q), hu.closed_live.values⟩
    have hd : (u.setHandle p g.cleared).slots.Distinct := by
      rw [setHandle_own hp]
      exact hu.balanced.distinct
    obtain ⟨w', hrun', hx', hheld⟩ := hput.release hd hclosed rfl (hu.leadsInto_live hg) hrun
    refine ⟨w', u', ?_, (resetHandle_of_owner hg ho).trans hrun, hx', fun q hq hne => ?_⟩
    · have ho' : h.family = .unique → h.slot ≠ none := by rwa [hr.family_eq, hr.slot_eq]
      rw [resetHandle_of_owner hl ho', hr.cleared_eq, hr.release_eq, hrun']
    · refine ⟨?_, ?_⟩
      · rw [live?_own hq, (hheld q).1, ← live?_own hq, live?_setHandle_of_ne hne]
      · rw [live?_own hq, (hheld q).2, ← live?_own hq, live?_setHandle_of_ne hne]
  · obtain ⟨hf, hs⟩ : g.family = .unique ∧ g.slot = none := by simpa using ho
    have hempty : ∀ {x : World} {k : Handle}, x.live? p = some k → k.family = .unique → k.slot = none →
        SlotHandles.resetHandle p x = .ok () x := by
      intro x k hk hkf hks
      unfold SlotHandles.resetHandle
      rw [bind_of_ok (readHandle_apply hk), hkf, hks]
      rfl
    exact ⟨w, u, hempty hl (hr.family_eq.trans hf) (hr.slot_eq.trans hs), hempty hg hf hs, hx, fun _ _ _ => ⟨rfl, rfl⟩⟩

end World.StraysFrom

/-! ### Steps that do not look through a view -/

/-- The step ends alike in both worlds, and leaves worlds that stray in nothing but views. -/
def HandleStep.Parallels (S : Handle → Prop) (st : HandleStep) (w u : World) : Prop :=
  st.outcome w = st.outcome u ∧ (st.after w).StraysFrom S (st.after u)

theorem HandleStep.parallels_of_ok {a : Answer} (hw : st.run w = .ok a w') (hu : st.run u = .ok a u')
    (hx : w'.StraysFrom S u') : st.Parallels S w u := by
  obtain ⟨ho, ha⟩ := outcome_after_of_ok hw
  obtain ⟨ho', ha'⟩ := outcome_after_of_ok hu
  unfold Parallels
  rw [ho, ho', ha, ha']
  exact ⟨rfl, hx⟩

theorem HandleStep.Parallels.completes (h : st.Parallels S w u) (hc : st.Completes w w') :
    ∃ u', st.Completes u u' ∧ w'.StraysFrom S u' := by
  obtain ⟨ho, hx⟩ := h
  rw [hc.after] at hx
  refine ⟨_, ?_, hx⟩
  unfold HandleStep.outcome HandleStep.after at *
  rcases hc with ⟨a, hrun⟩ | ⟨e, hrun⟩
  · rw [hrun] at ho
    cases hu : st.run u with
    | ok b u' => exact .returned b hu
    | error f u' => rw [hu] at ho; cases ho
  · rw [hrun] at ho
    cases hu : st.run u with
    | ok b u' => rw [hu] at ho; cases ho
    | error f u' =>
      rw [hu] at ho
      cases ho
      exact .threw e hu

namespace World.StraysFrom

/-- A step that names no handle whose view could be overwritten. -/
theorem parallels_of_plain (hx : w.StraysFrom S u) (hu : u.Sound M) (ha : st.Admissible w)
    (hplain : ∀ p ∈ st.places, ∀ g, u.live? p = some g → ¬ g.IsRedirectable) :
    st.Admissible u ∧ st.Parallels S w u := by
  have hlive : ∀ p ∈ st.places, u.live? p = w.live? p := fun p hp => (hx.live?_eq (hplain p hp)).symm
  have ha' : st.Admissible u :=
    ha.congr hlive (fun name _ => (hx.values name).symm) fun s _ => by rw [hx.slots]
  have hco : u.Coincide (st.footprint u) w := by
    refine hx.coincide fun p hp => ?_
    rw [← live?_own hp.2, ← live?_own hp.2]
    exact (hlive p hp.1).symm
  obtain ⟨ho, ht⟩ := (hu.fits ha').agrees ha' hco hu.balanced.distinct hx.distinct
  exact ⟨ha', ho.symm, hx.of_together ht⟩

/-! ### Steps that name a handle whose view could be overwritten -/

theorem parallels_reset (hx : w.StraysFrom S u) (hu : u.Sound M) (hp : p.isOwn) (hl : w.live? p = some h)
    (hg : u.live? p = some g) (hr : h.Strays S g) : (HandleStep.reset p).Parallels S w u := by
  obtain ⟨w', u', hrun, hrun', hx', -⟩ := hx.resetHandle hu hp hl hg hr
  exact HandleStep.parallels_of_ok (bind_of_ok hrun) (bind_of_ok hrun') hx'

theorem parallels_destroy (hx : w.StraysFrom S u) (hu : u.Sound M) (hp : p.isOwn) (hl : w.live? p = some h)
    (hg : u.live? p = some g) (hr : h.Strays S g) : (HandleStep.destroy p).Parallels S w u := by
  have hheld : u.held.find? p = some g := (live?_own hp u).symm.trans hg
  obtain ⟨u', hrun, -, -⟩ := (hu.remove hheld).release
  have hclosed : ({ u with held := u.held.remove p } : World).Closed u.liveFootprint :=
    ⟨hu.closed_live.storage, fun q hq => absurd hq (Set.notMem_empty q), hu.closed_live.values⟩
  obtain ⟨w', hrun', hx', -⟩ := (hx.remove p).release hu.balanced.distinct hclosed rfl (hu.leadsInto_live hg) hrun
  have hdestroy : SlotHandles.destroyHandle p w = .ok () w' := by
    unfold destroyHandle
    rw [bind_of_ok (readHandle_apply hl), hr.release_eq]
    exact hrun'
  have hdestroy' : SlotHandles.destroyHandle p u = .ok () u' := by
    unfold destroyHandle
    rw [bind_of_ok (readHandle_apply hg)]
    exact hrun
  exact HandleStep.parallels_of_ok (bind_of_ok hdestroy) (bind_of_ok hdestroy') hx'

theorem parallels_swap (hx : w.StraysFrom S u) (hp : p.isOwn) (hq : q.isOwn) (hl : w.live? p = some h)
    (hg : u.live? p = some g) (hr : h.Strays S g) {h' g' : Handle} (hl' : w.live? q = some h')
    (hg' : u.live? q = some g') (hr' : h'.Strays S g') : (HandleStep.swap p q).Parallels S w u :=
  HandleStep.parallels_of_ok (bind_of_ok (swapHandles_apply hl hl')) (bind_of_ok (swapHandles_apply hg hg'))
    ((hx.setHandle hr' hp).setHandle hr hq)

theorem parallels_constructByMove (hx : w.StraysFrom S u) (hinto : into.isOwn) (hp : p.isOwn)
    (hl : w.live? p = some h) (hg : u.live? p = some g) (hr : h.Strays S g) :
    (HandleStep.constructByMove into h.elem p).Parallels S w u := by
  have hmove := moveHandle_apply hl h.elem
  have hmove' := moveHandle_apply hg h.elem
  rw [Handle.convert_self, hr.cleared_eq] at hmove
  rw [hr.elem_eq, Handle.convert_self, ← hr.elem_eq] at hmove'
  exact HandleStep.parallels_of_ok (bind_of_ok hmove) (bind_of_ok hmove')
    ((hx.setHandle (.refl S g.cleared) hp).setHandle hr hinto)

theorem parallels_castByMove (hx : w.StraysFrom S u) (hu : u.Sound M) (hinto : into.isOwn) (hp : p.isOwn)
    (hl : w.live? p = some h) (hg : u.live? p = some g) (hr : h.Strays S g) (elem : Ty) :
    (HandleStep.castByMove into elem p).Parallels S w u := by
  by_cases hc : g.CastsTo u elem
  · obtain ⟨s, hs, hh⟩ := hc
    have hcast' := castByMove_of_holds hu hg hs hh
    have ho := (hu.refersIn_of_live hg).occupied hs
    rw [← hx.controlOf] at ho hh
    have hcast := castByMove_of_occupied hl (hr.slot_eq.trans hs) ho hh
    rw [hr.restored_eq, hr.cleared_eq] at hcast
    exact HandleStep.parallels_of_ok (bind_of_ok hcast) (bind_of_ok hcast')
      ((hx.setHandle (.refl S g.cleared) hp).setHandle (.refl S (g.restored elem s)) hinto)
  · have hc' : ¬ h.CastsTo w elem := by
      rintro ⟨s, hs, hh⟩
      rw [hx.controlOf] at hh
      exact hc ⟨s, hr.slot_eq.symm.trans hs, hh⟩
    have hcast := castByMove_of_not_castsTo hl hc'
    rw [hr.family_eq] at hcast
    exact HandleStep.parallels_of_ok (bind_of_ok hcast) (bind_of_ok (castByMove_of_not_castsTo hg hc))
      (hx.setHandle (.refl S _) hinto)

theorem parallels_assignByMove (hx : w.StraysFrom S u) (hu : u.Sound M) (hp : p.isOwn) (hq : q.isOwn)
    (hl : w.live? p = some h) (hg : u.live? p = some g) (hr : h.Strays S g) (hf : g.family = .unique)
    {h' g' : Handle} (hl' : w.live? q = some h') (hg' : u.live? q = some g') (hr' : h'.Strays S g')
    (he : h.elem = h'.elem) : (HandleStep.assignByMove p q).Parallels S w u := by
  by_cases hne : p = q
  · exact HandleStep.parallels_of_ok (bind_of_ok (assignByMove_self hne w)) (bind_of_ok (assignByMove_self hne u)) hx
  obtain ⟨w₁, u₁, hreset, hreset', hx₁, hkeep⟩ := hx.resetHandle hu hp hl hg hr
  obtain ⟨hkeep, hkeep'⟩ := hkeep q hq (Ne.symm hne)
  have hmove := moveHandle_apply (hkeep.trans hl') h.elem
  have hmove' := moveHandle_apply (hkeep'.trans hg') g.elem
  rw [he, Handle.convert_self, ← he, hr'.cleared_eq] at hmove
  rw [← hr.elem_eq, he, hr'.elem_eq, Handle.convert_self, ← hr'.elem_eq, ← he, hr.elem_eq] at hmove'
  have hassign : SlotHandles.assignByMove p q w = .ok () ((w₁.setHandle q g'.cleared).setHandle p h') := by
    rw [assignByMove_of_unique hl (hr.family_eq.trans hf) hne, bind_of_ok hreset, bind_of_ok hmove]
    rfl
  have hassign' : SlotHandles.assignByMove p q u = .ok () ((u₁.setHandle q g'.cleared).setHandle p g') := by
    rw [assignByMove_of_unique hg hf hne, bind_of_ok hreset', bind_of_ok hmove']
    rfl
  exact HandleStep.parallels_of_ok (bind_of_ok hassign) (bind_of_ok hassign')
    ((hx₁.setHandle (.refl S g'.cleared) hq).setHandle hr' hp)

/-- A step that looks through no view that could be overwritten goes the same way in both worlds. -/
theorem parallels (hx : w.StraysFrom S u) (hu : u.Sound M) (ha : st.Admissible w)
    (hlook : ∀ p, st.looksThrough = some p → ∀ g, u.live? p = some g → ¬ g.IsRedirectable) :
    st.Admissible u ∧ st.Parallels S w u := by
  by_cases hplain : ∀ p ∈ st.places, ∀ g, u.live? p = some g → ¬ g.IsRedirectable
  · exact hx.parallels_of_plain hu ha hplain
  -- the step names a handle whose view could be overwritten: it is exclusive, and the program holds it itself
  push Not at hplain
  obtain ⟨p, hp, g, hg, hgr⟩ := hplain
  obtain ⟨h, hl, hr⟩ := hx.exists_strayed hg
  have hown := hu.isOwn_of_isView hg hgr.2
  have hview : h.elem.isView := (hr.isRedirectable_iff.mpr hgr).2
  have hunique : h.family = .unique := (hr.isRedirectable_iff.mpr hgr).1
  have hne : ∀ {into}, w.Vacant into → p ≠ into := fun hinto => hinto.ne_of_live hown hl
  have hsame : ∀ {k}, w.live? p = some k → k = h := fun hk => Option.some_inj.mp (hk.symm.trans hl)
  have own : ∀ {q : Holder} {k : Handle}, w.live? q = some k → k.elem.isView →
      ∃ g, u.live? q = some g ∧ k.Strays S g ∧ q.isOwn := by
    intro q k hk hv
    obtain ⟨g, hg, hr⟩ := hx.exists_live hk
    exact ⟨g, hg, hr, hu.isOwn_of_isView hg (hr.elem_eq ▸ hv)⟩
  cases st with
  | empty into family elem => exact absurd (List.mem_singleton.mp hp) (hne ha.1)
  | make into s family elem o throwing => exact absurd (List.mem_singleton.mp hp) (hne ha.1)
  | constructByMove into elem source =>
    obtain ⟨hinto, k, hk, hc⟩ := ha
    obtain rfl := (List.mem_pair.mp hp).resolve_left (hne hinto)
    obtain rfl := hsame hk
    obtain rfl := Run.eq_of_convertible_view hc (.inr hview)
    refine ⟨⟨hx.vacant hinto, g, hg, ?_⟩, hx.parallels_constructByMove hinto.1 hown hl hg hr⟩
    rwa [← hr.elem_eq]
  | constructByCopy into elem source =>
    obtain ⟨hinto, k, hk, hf, -⟩ := ha
    obtain rfl := (List.mem_pair.mp hp).resolve_left (hne hinto)
    obtain rfl := hsame hk
    exact absurd (hunique.symm.trans hf) (by decide)
  | assignByMove target source =>
    obtain ⟨a, b, hla, hlb, hf, hc⟩ := ha
    have hviews : a.elem.isView ∨ b.elem.isView := by
      rcases List.mem_pair.mp hp with rfl | rfl
      · exact .inl (hsame hla ▸ hview)
      · exact .inr (hsame hlb ▸ hview)
    have he := Run.eq_of_convertible_view hc hviews
    have hfa : a.family = .unique := by
      rcases List.mem_pair.mp hp with rfl | rfl
      · exact hsame hla ▸ hunique
      · exact hf.trans (hsame hlb ▸ hunique)
    obtain ⟨ga, hga, hra, howna⟩ := own hla (hviews.elim id fun hv => he ▸ hv)
    obtain ⟨gb, hgb, hrb, hownb⟩ := own hlb (hviews.elim (fun hv => he ▸ hv) id)
    refine ⟨⟨ga, gb, hga, hgb, ?_, ?_⟩, ?_⟩
    · rwa [← hra.family_eq, ← hrb.family_eq]
    · rwa [← hra.elem_eq, ← hrb.elem_eq]
    · exact hx.parallels_assignByMove hu howna hownb hla hga hra (hra.family_eq.symm.trans hfa) hlb hgb hrb he
  | assignByCopy target source =>
    obtain ⟨k, k', hk, hk', hf, hf', -⟩ := ha
    rcases List.mem_pair.mp hp with rfl | rfl
    · obtain rfl := hsame hk
      exact absurd (hunique.symm.trans hf) (by decide)
    · obtain rfl := hsame hk'
      exact absurd (hunique.symm.trans hf') (by decide)
  | reset q =>
    obtain rfl := List.mem_singleton.mp hp
    exact ⟨⟨g, hg⟩, hx.parallels_reset hu hown hl hg hr⟩
  | destroy q =>
    obtain rfl := List.mem_singleton.mp hp
    exact ⟨⟨hown, g, (live?_own hown u).symm.trans hg⟩, hx.parallels_destroy hu hown hl hg hr⟩
  | swap q q' =>
    obtain ⟨a, b, hla, hlb, hf, he⟩ := ha
    have hviews : a.elem.isView := by
      rcases List.mem_pair.mp hp with rfl | rfl
      · exact hsame hla ▸ hview
      · exact he ▸ hsame hlb ▸ hview
    obtain ⟨ga, hga, hra, howna⟩ := own hla hviews
    obtain ⟨gb, hgb, hrb, hownb⟩ := own hlb (he ▸ hviews)
    refine ⟨⟨ga, gb, hga, hgb, ?_, ?_⟩, hx.parallels_swap howna hownb hla hga hra hlb hgb hrb⟩
    · rw [← hra.family_eq, ← hrb.family_eq, hf]
    · rw [← hra.elem_eq, ← hrb.elem_eq, he]
  | castByMove into elem source =>
    obtain ⟨hinto, he, -⟩ := ha
    obtain rfl := (List.mem_pair.mp hp).resolve_left (hne hinto)
    exact ⟨⟨hx.vacant hinto, he, g, hg⟩, hx.parallels_castByMove hu hinto.1 hown hl hg hr elem⟩
  | castByCopy into elem source =>
    obtain ⟨hinto, -, k, hk, hf⟩ := ha
    obtain rfl := (List.mem_pair.mp hp).resolve_left (hne hinto)
    obtain rfl := hsame hk
    exact absurd (hunique.symm.trans hf) (by decide)
  | take into q =>
    obtain ⟨-, k, hk, -, ht⟩ := ha
    rcases List.mem_pair.mp hp with rfl | rfl
    · cases hown
    · obtain rfl := hsame hk
      simp [Ty.isTakeable, Run.takeable, hview] at ht
  | destroyTaken name =>
    obtain rfl := List.mem_singleton.mp hp
    cases hown
  | dereference q | change q f | readItem q i | writeItem q i n | call q m =>
    obtain rfl := List.mem_singleton.mp hp
    exact absurd hgr (hlook p rfl g hg)

end World.StraysFrom

end SlotHandles
