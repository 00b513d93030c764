import SlotHandles.Proofs.Dispatch
import SlotHandles.Proofs.Straying

/-!
# Views that are overwritten

An exclusive handle hands out the view embedded in it for reading and for writing, so a program may assign any view to
it: that of a value in another slot, of a value in none, or an empty one.  `Redirected` are the worlds of such programs,
with a note of what was assigned to the handle of which slot, and since when the slot was occupied.

They stray from sound worlds in nothing but views that were assigned (`Redirected.strays`).  An access through a handle
compares the type of its view with that of the value in its slot, and goes through the view if they agree.  So a view of
another type is always reported, and a view of another value of the same type never (`dereferenced_view_checked`).
-/

namespace SlotHandles

open World

variable {S : Handle → Prop} {w w' u u' : World} {p : Holder} {h g : Handle} {s : SlotId} {t : StoredType} {x : Value}
  {M : Multiset Handle} {st : HandleStep} {v : View} {slots : Table SlotId Slot} {a : Address} {r : Region}
  {m : Method}

/-! ### Access through any view -/

/-- In front of an access the type of an embedded view is compared with that of the value in the handle's slot. -/
theorem checkAccess_of_view (hs : h.slot = some s) (ht : w.typeIn s = some t) (hv : h.ref = .view v) :
    checkAccess h w =
      if v.isSome = false then .error .nullAccess w
      else if v.type = some t then .ok () w
      else .error (.violation .foreignView) w := by
  have htype : (w.controlOf s).heldType = some t := ht
  unfold checkAccess
  rw [hs, hv]
  dsimp only
  rw [bind_of_ok (controlNow_apply ..), if_neg (by simp [(typeIn_eq_some_iff.mp ht).1]), htype]
  cases v.isSome with
  | false => rfl
  | true =>
    by_cases h : v.type = some t
    · simp [h]
      rfl
    · simp [h]
      rfl

theorem dereferenceView_of_isSome (hs : h.slot = some s) (ht : w.typeIn s = some t) (hv : h.ref = .view v)
    (hsome : v.isSome) :
    dereferenceView h w = if v.type = some t then .ok v w else .error (.violation .foreignView) w := by
  have hcheck := checkAccess_of_view hs ht hv
  rw [if_neg (by simp [hsome])] at hcheck
  unfold dereferenceView
  by_cases he : v.type = some t
  · rw [if_pos he] at hcheck
    rw [bind_of_ok hcheck, hv, if_pos he]
    rfl
  · rw [if_neg he] at hcheck
    rw [bind_of_error hcheck, if_neg he]

theorem dereferenceView_of_empty (hs : h.slot = some s) (ht : w.typeIn s = some t) (hv : h.ref = .view v)
    (hsome : v.isSome = false) : dereferenceView h w = .error .nullAccess w := by
  have hcheck := checkAccess_of_view hs ht hv
  rw [if_pos hsome] at hcheck
  exact bind_of_error hcheck

/-- A dereference that returns a view leaves the world alone, and the view is the embedded one. -/
theorem dereferenceView_returns (ht : ∀ s, h.slot = some s → ∃ t, w.typeIn s = some t) (hv : h.ref = .view v) :
    Ends (dereferenceView h) w (fun v' w' => v' = v ∧ w' = w) (fun f _ => ∀ e, f ≠ .exception e) := by
  cases hs : h.slot with
  | none =>
    have herror : dereferenceView h w = .error (.violation (.dereferencingEmpty h.family)) w :=
      bind_of_error (checkAccess_of_empty hs w)
    exact (ends_of_error herror).mpr fun e he => by cases he
  | some s =>
    obtain ⟨t, ht⟩ := ht s hs
    cases hsome : v.isSome with
    | false => exact (ends_of_error (dereferenceView_of_empty hs ht hv hsome)).mpr fun e he => by cases he
    | true =>
      have hrun := dereferenceView_of_isSome hs ht hv hsome
      by_cases he : v.type = some t
      · rw [if_pos he] at hrun
        exact (ends_of_ok hrun).mpr ⟨rfl, rfl⟩
      · rw [if_neg he] at hrun
        exact (ends_of_error hrun).mpr fun e he => by cases he

/-- The action leaves a world in `good` whenever it returns or a value's code throws. -/
def Leaves {α : Type} (a : Act α) (w : World) (good : World → Prop) : Prop :=
  Ends a w (fun _ w' => good w') (fun f w' => ∀ e, f = .exception e → good w')

theorem HandleStep.Completes.leaves {good : World → Prop} (hc : st.Completes w w') (h : Leaves st.run w good) :
    good w' := by
  rcases hc with ⟨a, hrun⟩ | ⟨e, hrun⟩
  · exact h.ok hrun
  · exact h.error hrun e rfl

theorem callThrough_of_data (ht : v.table = some t) (ha : v.data = some a) (m : Method) :
    callThrough v m w =
      match ((w.objectAs a.region t).call m).result with
      | .ok d => .ok d (w.setObject a.region ((w.objectAs a.region t).call m).after)
      | .error thrown =>
        .error (.exception thrown) (w.setObject a.region ((w.objectAs a.region t).call m).after) := by
  unfold callThrough
  rw [ht, ha]
  dsimp only
  rw [bind_of_ok (rfl : (get : Act World) w = .ok w w), bind_of_ok (writeObject_apply ..)]
  cases ((w.objectAs a.region t).call m).result <;> rfl

/-- A value of the type is alive in the region. -/
def World.Keeps (w : World) (r : Region) (t : StoredType) : Prop :=
  match r with
  | .slot s => w.typeIn s = some t
  | .named n => ∃ x, w.values.find? n = some x ∧ x.type = t

/-- A call of the step goes to a value that is alive and of the type whose operations are called. -/
def HandleStep.CallsLive (st : HandleStep) (w : World) : Prop :=
  ∀ p m h v t a, st = .call p m → w.live? p = some h → h.ref = .view v → v.table = some t → v.data = some a →
    w.Keeps a.region t

namespace World.StraysFrom

theorem setStorage (hx : w.StraysFrom S u) (s : SlotId) (x : Value) :
    (w.setStorage s x).StraysFrom S (u.setStorage s x) := by
  refine ⟨distinct_setStorage hx.distinct s x, fun r => ?_, hx.values, hx.trace, hx.held⟩
  rw [find?_setStorage, find?_setStorage, hx.slots]

/-- A live value changes in both worlds alike, whoever it belongs to. -/
theorem change (hx : w.StraysFrom S u) (hu : u.Sound M) (hr : w.Keeps r t) {f : Value → Value}
    (hf : Value.KeepsLink f) :
    ∃ u', u'.Sound M ∧ u.Calm u' ∧ (w.setObject r (f (w.objectAs r t))).StraysFrom S u' := by
  cases r with
  | slot s =>
    have ht : u.typeIn s = some t := (hx.typeIn s).symm.trans hr
    obtain ⟨y, hy, rfl⟩ := hu.balanced.value_of_type ht
    have hobject : w.objectAs (.slot s) y.type = y := objectAs_slot ((hx.storageOf s).trans hy)
    rw [hobject]
    exact ⟨u.setStorage s (f y), hu.changeValue hf (typeIn_eq_some_iff.mp ht).1 hy, calm_setStorage .., hx.setStorage s _⟩
  | named n =>
    obtain ⟨y, hy, rfl⟩ := hr
    have hobject : w.objectAs (.named n) y.type = y := by
      unfold World.objectAs World.object?
      dsimp only
      rw [hy]
      simp
    have hyu : u.values.find? n = some y := (hx.values n).symm.trans hy
    have hremoved := hu.removeValue hyu
    rw [← (hf y).2.1] at hremoved
    have hput := hremoved.putValue (Table.find?_remove_self ..) ((hu.proper n y hyu).change hf)
    refine ⟨_, hput, calm_of_controlOf (List.append_nil _).symm quiet_nil fun _ => rfl, ?_⟩
    refine ⟨hx.distinct, hx.slots, fun name => ?_, hx.trace, hx.held⟩
    rw [hobject]
    change (w.values.put n (f y)).find? name = ((u.values.remove n).put n (f y)).find? name
    by_cases hname : name = n
    · subst hname
      rw [Table.find?_put_self, Table.find?_put_self]
    · rw [Table.find?_put_of_ne _ _ hname, Table.find?_put_of_ne _ _ hname, Table.find?_remove_of_ne _ hname, hx.values]

/-- The view embedded in a handle is one of the value in its slot, or it may be any in a handle of `S`. -/
theorem exists_view (hx : w.StraysFrom S u) (hu : u.Sound M) (hl : w.live? p = some h) (hview : h.elem.isView) :
    ∃ v, h.ref = .view v ∧ ∀ s, h.slot = some s →
      ∃ t, w.typeIn s = some t ∧ (v = .of (.startOf s) t ∨ S h ∧ h.family = .unique) := by
  obtain ⟨g, hg, hr⟩ := hx.exists_live hl
  have hrefers := hu.refersIn_of_live hg
  rcases hr with rfl | ⟨hS, hgr, v, rfl⟩
  · cases he : h.elem with
    | view q face =>
      cases hs : h.slot with
      | none =>
        rw [Handle.refersIn_of_slot_eq_none hs, he] at hrefers
        exact ⟨.empty, hrefers, fun s hs' => by cases hs'⟩
      | some s =>
        obtain ⟨t, ht, hd⟩ := (Handle.refersIn_of_slot_eq_some hs).mp hrefers
        rw [he] at hd
        refine ⟨.of (.startOf s) t, hd.2, ?_⟩
        rintro _ ⟨⟩
        exact ⟨t, (hx.typeIn s).trans ht, .inl rfl⟩
    | _ => rw [he] at hview; cases hview
  · refine ⟨v, rfl, fun s hs => ?_⟩
    obtain ⟨t, ht, -⟩ := (Handle.refersIn_of_slot_eq_some (h := g) hs).mp hrefers
    exact ⟨t, (hx.typeIn s).trans ht, .inr ⟨hS, hgr.1⟩⟩

theorem leaves_dereference (hx : w.StraysFrom S u) (hu : u.Sound M) (hl : w.live? p = some h)
    (hview : h.elem.isView) : Leaves (HandleStep.dereference p).run w fun w' => w' = w := by
  obtain ⟨v, hv, htype⟩ := hx.exists_view hu hl hview
  unfold Leaves HandleStep.run lookThrough
  rw [ends_bind, ends_of_ok (readHandle_apply hl), if_pos hview, ends_bind]
  exact (dereferenceView_returns (fun s hs => (htype s hs).imp fun _ ht => ht.1) hv).mono (fun _ _ h => h.2)
    fun f _ h e he => absurd he (h e)

/-- A call through a view changes a live value, if anything. -/
theorem leaves_callThrough (hx : w.StraysFrom S u) (hu : u.Sound M)
    (hlive : ∀ t a, v.table = some t → v.data = some a → w.Keeps a.region t) :
    Leaves (callThrough v m) w fun w' => ∃ u', u'.Sound M ∧ u.Calm u' ∧ w'.StraysFrom S u' := by
  cases ht : v.table with
  | none =>
    have hempty : callThrough v m w = .error (.violation .callingEmptyView) w := by
      unfold callThrough
      rw [ht]
      rfl
    exact (ends_of_error hempty).mpr fun e he => by cases he
  | some t =>
    cases ha : v.data with
    | none =>
      have hnull : callThrough v m w = .error .nullAccess w := by
        unfold callThrough
        rw [ht, ha]
        rfl
      exact (ends_of_error hnull).mpr fun e he => by cases he
    | some a =>
      have hchange := hx.change hu (hlive t a ht ha) (Value.keepsLink_call m)
      have hrun := callThrough_of_data (w := w) ht ha m
      cases hresult : ((w.objectAs a.region t).call m).result with
      | ok d =>
        rw [hresult] at hrun
        exact (ends_of_ok hrun).mpr hchange
      | error thrown =>
        rw [hresult] at hrun
        exact (ends_of_error hrun).mpr fun _ _ => hchange

theorem leaves_call (hx : w.StraysFrom S u) (hu : u.Sound M) (hl : w.live? p = some h) (hview : h.elem.isView)
    (hlive : (HandleStep.call p m).CallsLive w) :
    Leaves (HandleStep.call p m).run w fun w' => ∃ u', u'.Sound M ∧ u.Calm u' ∧ w'.StraysFrom S u' := by
  obtain ⟨v, hv, htype⟩ := hx.exists_view hu hl hview
  unfold Leaves HandleStep.run
  rw [ends_bind, ends_of_ok (readHandle_apply hl), ends_bind]
  refine (dereferenceView_returns (fun s hs => (htype s hs).imp fun _ ht => ht.1) hv).mono ?_
    fun f _ h e he => absurd he (h e)
  rintro _ _ ⟨rfl, rfl⟩
  rw [ends_bind]
  exact (hx.leaves_callThrough hu fun t a => hlive p m h _ t a rfl hl hv).mono (fun _ _ h => h) fun _ _ h => h

/-- A step keeps a world astray from a sound one, in which everything has gone on as in a handle program. -/
theorem follows (hx : w.StraysFrom S u) (hu : u.Sound M) (ha : st.Admissible w) (hlive : st.CallsLive w)
    (hc : st.Completes w w') :
    ∃ u', (∃ lost, u'.Sound (lost + M) ∧ ∀ k ∈ lost, k.family = .unique) ∧ u.Evolves u' ∧ w'.StraysFrom S u' := by
  have hnothing : ∀ {u' : World}, u'.Sound M → ∃ lost, u'.Sound (lost + M) ∧ ∀ k ∈ lost, k.family = .unique :=
    fun hu' => ⟨0, by simpa using hu', by simp⟩
  by_cases hlook : ∀ p, st.looksThrough = some p → ∀ g, u.live? p = some g → ¬ g.IsRedirectable
  · obtain ⟨ha', hpar⟩ := hx.parallels hu ha hlook
    obtain ⟨u', hc', hx'⟩ := hpar.completes hc
    obtain ⟨hlost, hev⟩ := hc'.loses hu ha'
    exact ⟨u', hlost, hev, hx'⟩
  push Not at hlook
  obtain ⟨p, hp, g, hg, hgr⟩ := hlook
  obtain ⟨h, hl, hr⟩ := hx.exists_strayed hg
  have hview : h.elem.isView := (hr.isRedirectable_iff.mpr hgr).2
  have hsame : ∀ {k}, w.live? p = some k → k = h := fun hk => Option.some_inj.mp (hk.symm.trans hl)
  have hblock : h.elem.isBlock = false := by
    cases he : h.elem with
    | view q face => rfl
    | _ => rw [he] at hview; cases hview
  cases st with
  | dereference q =>
    cases hp
    obtain rfl := hc.leaves (hx.leaves_dereference hu hl hview)
    exact ⟨u, hnothing hu, (Calm.refl u).evolves, hx⟩
  | call q m =>
    cases hp
    obtain ⟨u', hu', hcalm, hx'⟩ := hc.leaves (hx.leaves_call hu hl hview hlive)
    exact ⟨u', hnothing hu', hcalm.evolves, hx'⟩
  | change q f =>
    cases hp
    obtain ⟨-, k, hk, -, hv⟩ := ha
    rw [hsame hk, hview] at hv
    cases hv
  | readItem q i =>
    cases hp
    obtain ⟨k, hk, hb⟩ := ha
    rw [hsame hk, hblock] at hb
    cases hb
  | writeItem q i n =>
    cases hp
    obtain ⟨k, hk, hb, -⟩ := ha
    rw [hsame hk, hblock] at hb
    cases hb
  | _ => cases hp

end World.StraysFrom

/-! ### Programs that overwrite views -/

/-- A view that was assigned to the one embedded in the handle of a slot, and what the slot had been through until
then. -/
structure Redirect where
  slot : SlotId
  story : List Event
  view : View
  deriving DecidableEq

/-- What there is to note when a view is assigned to the one embedded in the handle.  An empty handle has no slot that
it could lead away from. -/
def Handle.redirects (h : Handle) (trace : List Event) (v : View) : List Redirect :=
  h.slot.toList.map fun s => ⟨s, lifeOf s trace, v⟩

/-- The worlds of a handle program that also assigns views to the ones embedded in exclusive handles, in between and as
it likes, with what was assigned.  Calls go to live values: the behaviour of any other call is undefined. -/
inductive Redirected (slots : Table SlotId Slot) : World → List Redirect → Prop
  | start : Redirected slots (.ofSlots slots) []
  | step {w w' : World} {given : List Redirect} (st : HandleStep) : Redirected slots w given → st.Admissible w →
      st.CallsLive w → st.Completes w w' → Redirected slots w' given
  | assign {w : World} {given : List Redirect} {p : Holder} {h : Handle} (v : View) : Redirected slots w given →
      w.live? p = some h → h.IsRedirectable →
      Redirected slots (w.setHandle p { h with ref := .view v }) (h.redirects w.trace v ++ given)

/-- The view of the handle was assigned to it, and since its slot was occupied. -/
def Handle.Told (given : List Redirect) (trace : List Event) (h : Handle) : Prop :=
  ∀ s v, h.slot = some s → h.ref = .view v → ⟨s, lifeOf s trace, v⟩ ∈ given

theorem World.Sound.refersIn_of_held (hw : w.Sound M) (hp : w.held.find? p = some h) : h.RefersIn w := by
  refine hw.balanced.refers h ?_
  have hmem : h ∈ (w.held.map Prod.snd : List Handle) :=
    List.mem_map_of_mem (f := Prod.snd) (Table.mem_of_find?_eq_some hp)
  unfold World.roots
  simp only [Multiset.mem_add, Multiset.mem_coe]
  exact .inl (.inr (.inl (.inl hmem)))

/-- A slot that is occupied before and after a step has been through nothing else. -/
theorem World.Evolves.lifeOf_eq (hev : w.Evolves w') (ho : (w.controlOf s).state = .occupied)
    (ho' : (w'.controlOf s).state = .occupied) : lifeOf s w'.trace = lifeOf s w.trace := by
  have hnone : lifeOf s (w'.since w) = [] := by
    rcases hev.slot s with ⟨-, -, hl⟩ | ⟨_, he, -, -, -⟩ | ⟨_, -, -, he, -⟩
    · exact hl
    · exact absurd (he.symm.trans ho) (by decide)
    · exact absurd (he.symm.trans ho') (by decide)
  rw [trace_eq_append_since hev.trace, lifeOf_append, hnone, List.append_nil]

/-- A world in which views were overwritten strays from a sound one, and in nothing but views that were assigned. -/
theorem Redirected.strays {given : List Redirect} (hs : AllEmpty slots) (hr : Redirected slots w given) :
    ∃ u, (∃ lost, u.Sound lost ∧ ∀ k ∈ lost, k.family = .unique) ∧ w.StraysFrom (Handle.Told given w.trace) u := by
  induction hr with
  | start => exact ⟨_, ⟨0, hs.sound.1, by simp⟩, .refl hs.sound.1.balanced.distinct _⟩
  | @step w w' given st _ ha hlive hc ih =>
    obtain ⟨u, ⟨lost, hu, hlost⟩, hx⟩ := ih
    -- the handles that stray go on to own what they owned, so that nothing has happened to their slots
    have hx₁ : w.StraysFrom (fun h => h.Told given w.trace ∧ ∀ s, h.slot = some s → (u.controlOf s).state = .occupied)
        u := by
      refine hx.mono fun p h g hg hslot hS => ⟨hS, fun s hs => ?_⟩
      exact (hu.refersIn_of_held hg).occupied (hslot.symm.trans hs)
    obtain ⟨u', ⟨more, hu', hmore⟩, hev, hx'⟩ := hx₁.follows hu ha hlive hc
    refine ⟨u', ⟨_, hu', fun k hk => (Multiset.mem_add.mp hk).elim (hmore k) (hlost k)⟩, ?_⟩
    refine hx'.mono fun p h g hg hslot hS s v hs hv => ?_
    have ho' := (hu'.refersIn_of_held hg).occupied (hslot.symm.trans hs)
    have hlife := hev.lifeOf_eq (hS.2 s hs) ho'
    rw [← hx.trace, ← hx'.trace] at hlife
    rw [hlife]
    exact hS.1 s v hs hv
  | @assign w given p h v _ hl hred ih =>
    obtain ⟨u, ⟨lost, hu, hlost⟩, hx⟩ := ih
    obtain ⟨g, hg, hr⟩ := hx.exists_live hl
    have hgr := hr.isRedirectable_iff.mp hred
    have hmore : w.StraysFrom (Handle.Told (h.redirects w.trace v ++ given) w.trace) u :=
      hx.mono fun _ _ _ _ _ hS s v hs hv => List.mem_append_right _ (hS s v hs hv)
    have hnew : ({ h with ref := .view v } : Handle).Strays (Handle.Told (h.redirects w.trace v ++ given) w.trace) g := by
      refine .inr ⟨?_, hgr, v, ?_⟩
      · rintro s _ hs ⟨⟩
        refine List.mem_append_left _ ?_
        unfold Handle.redirects
        rw [show h.slot = some s from hs]
        exact List.mem_singleton.mpr rfl
      · rcases hr with rfl | ⟨-, -, v', rfl⟩ <;> rfl
    have hset := hmore.setHandle hnew (hu.isOwn_of_isView hg hgr.2)
    rw [setHandle_of_live? hu.balanced.distinct hg] at hset
    refine ⟨u, ⟨lost, hu, hlost⟩, ?_⟩
    rwa [trace_setHandle]

/-- **A dereferenced view.**  In every world of a handle program that overwrites views as it likes, the slot of a handle
with a view holds a live value, and the view is that of this value or was assigned to the handle since the value was
built.  If it is not empty, an access through the handle reports it when its type is not that of the value, and otherwise
returns it and goes on through it. -/
theorem dereferenced_view_checked {given : List Redirect} (hs : AllEmpty slots) (hr : Redirected slots w given)
    (hl : w.live? p = some h) (hslot : h.slot = some s) (hview : h.elem.isView) :
    ∃ t x v, w.Holds s t x ∧ x.type = t ∧ h.ref = .view v ∧
      (v = .of (.startOf s) t ∨ h.family = .unique ∧ ⟨s, lifeOf s w.trace, v⟩ ∈ given) ∧
      (v.isSome →
        (HandleStep.dereference p).run w =
          (if v.type = some t then .ok (.view v) w else .error (.violation .foreignView) w) ∧
        ∀ m, (HandleStep.call p m).run w =
          if v.type = some t then (Answer.datum <$> callThrough v m) w else .error (.violation .foreignView) w) := by
  obtain ⟨u, ⟨lost, hu, -⟩, hx⟩ := hr.strays hs
  obtain ⟨v, hv, htype⟩ := hx.exists_view hu hl hview
  obtain ⟨t, ht, hown⟩ := htype s hslot
  obtain ⟨x, hst, hxt⟩ := hu.balanced.value_of_type ((hx.typeIn s).symm.trans ht)
  refine ⟨t, x, v, ⟨ht, (hx.storageOf s).trans hst⟩, hxt, hv, ?_, fun hsome => ?_⟩
  · exact hown.imp id fun ⟨htold, hf⟩ => ⟨hf, htold s v hslot hv⟩
  have hrun := dereferenceView_of_isSome hslot ht hv hsome
  have hlook : (HandleStep.dereference p).run w = lookThrough h w := bind_of_ok (readHandle_apply hl)
  have hcall : ∀ m, (HandleStep.call p m).run w = (do return Answer.datum (← callThrough (← dereferenceView h) m)) w :=
    fun m => bind_of_ok (readHandle_apply hl)
  unfold lookThrough at hlook
  rw [if_pos hview] at hlook
  by_cases he : v.type = some t
  · rw [if_pos he] at hrun
    refine ⟨?_, fun m => ?_⟩
    · rw [hlook, bind_of_ok hrun, if_pos he]
      rfl
    · rw [hcall, bind_of_ok hrun, if_pos he]
      rfl
  · rw [if_neg he] at hrun
    refine ⟨?_, fun m => ?_⟩
    · rw [hlook, bind_of_error hrun, if_neg he]
    · rw [hcall, bind_of_error hrun, if_neg he]

/-! ### Two circles -/

/-- A handle with a view, to the circle in a slot. -/
def circleHandle (s : SlotId) (v : View) : Handle := ⟨.unique, .view .none .shape, some s, .view v⟩

/-- The view of the circle in a slot. -/
def circleView (s : SlotId) : View := .of (.startOf s) (.single .circle)

def circleSlot (address : Nat) (radius : Int64) : Slot :=
  ⟨⟨.occupied, 1, some (.single .circle), address, 64⟩, some (.circle radius)⟩

/-- A program that holds two circles by handles with views; the first handle has the given view. -/
def twoCircles (v : View) : World where
  slots := [(.numbered 0, circleSlot 0 1), (.numbered 1, circleSlot 64 2)]
  held := [(.named "a", circleHandle (.numbered 0) v),
    (.named "b", circleHandle (.numbered 1) (circleView (.numbered 1)))]
  bag := []
  values := []
  trace := [.constructed (.numbered 0) (.single .circle), .constructed (.numbered 1) (.single .circle)]

/-- Views that are assigned to the handle of the first circle. -/
def toldFirst (v : View) : List Redirect := [⟨.numbered 0, [.constructed (.numbered 0) (.single .circle)], v⟩]

theorem redirected_twoCircles (v : View) : Redirected twoSlots (twoCircles v) (toldFirst v) := by
  have hfirst : Redirected twoSlots _ [] :=
    .step (.make (.named "a") (.numbered 0) .unique (.view .none .shape) (.arguments (Seed.plain (.circle 1))) false)
      .start ⟨⟨rfl, rfl⟩, rfl, rfl, rfl, rfl, rfl⟩ (by rintro _ _ _ _ _ _ ⟨⟩) (.returned _ rfl)
  have hboth : Redirected twoSlots (twoCircles (circleView (.numbered 0))) [] :=
    .step (.make (.named "b") (.numbered 1) .unique (.view .none .shape) (.arguments (Seed.plain (.circle 2))) false)
      hfirst ⟨⟨rfl, rfl⟩, rfl, rfl, rfl, rfl, rfl⟩ (by rintro _ _ _ _ _ _ ⟨⟩) (.returned _ rfl)
  exact .assign v hboth (show (twoCircles _).live? (.named "a") = some (circleHandle _ _) from rfl) ⟨rfl, rfl⟩

/-- The handle of the first circle is given a view of the second one, and then one that says it is of a rectangle. -/
theorem dereferenced_view_checked_twoCircles : AllEmpty twoSlots ∧
    Redirected twoSlots (twoCircles (circleView (.numbered 1))) (toldFirst (circleView (.numbered 1))) ∧
    (HandleStep.dereference (.named "a")).run (twoCircles (circleView (.numbered 1))) =
      .ok (.view (circleView (.numbered 1))) (twoCircles (circleView (.numbered 1))) ∧
    (HandleStep.dereference (.named "a")).run (twoCircles (.of (.startOf (.numbered 1)) (.single .rectangle))) =
      .error (.violation .foreignView) (twoCircles (.of (.startOf (.numbered 1)) (.single .rectangle))) := by
  have hlive : ∀ v, (twoCircles v).live? (.named "a") = some (circleHandle (.numbered 0) v) := fun _ => rfl
  refine ⟨allEmpty_twoSlots, redirected_twoCircles _, ?_, ?_⟩
  · obtain ⟨t, x, v, hx, -, hv, -, hrun⟩ :=
      dereferenced_view_checked allEmpty_twoSlots (redirected_twoCircles _) (hlive (circleView (.numbered 1))) rfl rfl
    obtain rfl : StoredType.single .circle = t := Option.some_inj.mp hx.1
    obtain rfl : circleView (.numbered 1) = v := Referent.view.inj hv
    exact (hrun rfl).1
  · obtain ⟨t, x, v, hx, -, hv, -, hrun⟩ :=
      dereferenced_view_checked allEmpty_twoSlots (redirected_twoCircles _)
        (hlive (.of (.startOf (.numbered 1)) (.single .rectangle))) rfl rfl
    obtain rfl : StoredType.single .circle = t := Option.some_inj.mp hx.1
    obtain rfl : View.of (.startOf (.numbered 1)) (.single .rectangle) = v := Referent.view.inj hv
    exact (hrun rfl).1

/-- Not every view that was assigned is caught: one of another circle passes for one of the first, and when an empty one
was assigned the check itself goes through nothing. -/
theorem misdirected_view_not_caught :
    (¬ ∀ (slots : Table SlotId Slot) (w : World) (given : List Redirect) (p : Holder) (h : Handle) (s : SlotId),
      AllEmpty slots → Redirected slots w given → w.live? p = some h → h.IsRedirectable → h.slot = some s →
      (∃ violation, (HandleStep.dereference p).run w = .error (.violation violation) w) ∨
        ∃ v, (HandleStep.dereference p).run w = .ok (.view v) w ∧ v.data = some (.startOf s)) ∧
    Redirected twoSlots (twoCircles .empty) (toldFirst .empty) ∧
    (HandleStep.dereference (.named "a")).run (twoCircles .empty) = .error .nullAccess (twoCircles .empty) := by
  refine ⟨fun hall => ?_, redirected_twoCircles _, rfl⟩
  have hrun : (HandleStep.dereference (.named "a")).run (twoCircles (circleView (.numbered 1))) =
      .ok (.view (circleView (.numbered 1))) (twoCircles (circleView (.numbered 1))) := rfl
  rcases hall _ _ _ (.named "a") (circleHandle (.numbered 0) (circleView (.numbered 1))) (.numbered 0)
    allEmpty_twoSlots (redirected_twoCircles (circleView (.numbered 1))) rfl ⟨rfl, rfl⟩ rfl with ⟨x, hx⟩ | ⟨v, hv, hdata⟩
  · rw [hrun] at hx
    cases hx
  · rw [hrun] at hv
    cases hv
    exact absurd hdata (by decide)

end SlotHandles
