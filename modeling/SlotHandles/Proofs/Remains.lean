import SlotHandles.Proofs.Drops

/-!
# What a teardown leaves behind

The storage of a slot remembers the value that was torn down in it.  An exclusive handle in it is found empty, a shared
one as it was (`Value.remains`).  A shared handle that is let go of while it still stands in a value is never let go of
again by that value: the slot it names counts nothing any more, so the second time would be reported
(`release_spares`).

All this holds from any world whose live values are passive and stored as what they are (`World.Housed`); owners do
not matter.
-/

namespace SlotHandles

open World

variable {w w' u : World} {s t : SlotId} {v : Value} {h old : Handle} {M : Multiset Handle} {α : Type}

theorem Value.remains_remains (v : Value) : v.remains.remains = v.remains := by
  cases v <;> rfl

namespace World

/-- Every live value is stored as what it is, and calls no control block when it is destroyed. -/
def Housed (w : World) : Prop := ∀ s, (w.controlOf s).state = .occupied →
  ∃ v, w.storageOf s = some v ∧ (w.controlOf s).type = some v.type ∧ v.isPassive

theorem Sound.housed (hw : w.Sound M) : w.Housed := by
  intro s ho
  obtain ⟨v, hv, ht, hp, -⟩ := hw.balanced.stored s ho
  exact ⟨v, hv, ht, hp.passive⟩

/-- Values were torn down, as their remains show.  Counts only go down, and a shared handle in a value that was torn
down named a slot that still counted. -/
structure Withers (w w' : World) : Prop where
  trace : w.trace <+: w'.trace
  storage : ∀ s, w'.storageOf s = w.storageOf s ∨ w'.storageOf s = (w.storageOf s).map Value.remains
  torn : ∀ s, w.TearsDown w' s → w'.storageOf s = (w.storageOf s).map Value.remains
  live : ∀ s, (w'.controlOf s).state = .occupied →
    (w.controlOf s).state = .occupied ∧ (w'.controlOf s).type = (w.controlOf s).type ∧ w'.storageOf s = w.storageOf s
  spent : ∀ s, (w.controlOf s).count = 0 → (w'.controlOf s).count = 0
  owed : ∀ s id h t, w.TearsDown w' s → w.storageOf s = some (.snode id h) → h.family = .shared → h.slot = some t →
    (w.controlOf t).count ≠ 0

theorem not_tearsDown_of_trace (h : w'.trace = w.trace) : ¬ w.TearsDown w' s := by
  intro ht
  obtain ⟨t, ht⟩ := ht.mem_since
  unfold since at ht
  rw [h, List.drop_length] at ht
  cases ht

theorem TearsDown.split (hu : w.trace <+: u.trace) (hu' : u.trace <+: w'.trace) (h : w.TearsDown w' s) :
    w.TearsDown u s ∨ u.TearsDown w' s := by
  obtain ⟨t, ht⟩ := h.mem_since
  rw [since_trans hu hu', List.mem_append] at ht
  exact ht.imp (fun ht => (tearsDown_iff hu).mpr ⟨t, ht⟩) fun ht => (tearsDown_iff hu').mpr ⟨t, ht⟩

theorem Withers.refl (w : World) : w.Withers w where
  trace := List.prefix_rfl
  storage _ := .inl rfl
  torn _ h := absurd h (not_tearsDown_of_trace rfl)
  live _ h := ⟨h, rfl, rfl⟩
  spent _ h := h
  owed _ _ _ _ h := absurd h (not_tearsDown_of_trace rfl)

private theorem map_remains_map_remains (x : Option Value) :
    (x.map Value.remains).map Value.remains = x.map Value.remains := by
  cases x with
  | none => rfl
  | some v => exact congrArg some v.remains_remains

theorem Withers.trans (h : w.Withers u) (h' : u.Withers w') : w.Withers w' where
  trace := h.trace.trans h'.trace
  storage s := by
    rcases h.storage s with e | e <;> rcases h'.storage s with e' | e' <;> rw [e', e]
    · exact .inl rfl
    · exact .inr rfl
    · exact .inr rfl
    · exact .inr (map_remains_map_remains _)
  torn s ht := by
    rcases ht.split h.trace h'.trace with ht | ht
    · rcases h'.storage s with e' | e' <;> rw [e', h.torn s ht]
      exact map_remains_map_remains _
    · rcases h.storage s with e | e <;> rw [h'.torn s ht, e]
      exact map_remains_map_remains _
  live s ho := by
    obtain ⟨ho', ht', hv'⟩ := h'.live s ho
    obtain ⟨ho, ht, hv⟩ := h.live s ho'
    exact ⟨ho, ht'.trans ht, hv'.trans hv⟩
  spent s h0 := h'.spent s (h.spent s h0)
  owed s id g t ht hv hf hs := by
    rcases ht.split h.trace h'.trace with ht | ht
    · exact h.owed s id g t ht hv hf hs
    · -- a shared node looks the same in its storage, whether it was torn down before or not
      have hu : u.storageOf s = some (.snode id g) := by
        rcases h.storage s with e | e <;> rw [e, hv]
        rfl
      exact fun h0 => h'.owed s id g t ht hu hf hs (h.spent t h0)

theorem Housed.withers (hw : w.Housed) (h : w.Withers w') : w'.Housed := by
  intro s ho
  obtain ⟨ho, ht, hv⟩ := h.live s ho
  obtain ⟨v, hs, htype, hp⟩ := hw s ho
  exact ⟨v, hv.trans hs, ht.trans htype, hp⟩

/-- A control block was changed, but neither given a new value nor a new count. -/
theorem withers_setControl {c : ControlBlock}
    (hs : c.state = .occupied → (w.controlOf s).state = .occupied ∧ c.type = (w.controlOf s).type)
    (hc : (w.controlOf s).count = 0 → c.count = 0) : w.Withers (w.setControl s c) := by
  have hself : (w.setControl s c).controlOf s = c ∨ (w.setControl s c).controlOf s = w.controlOf s := by
    cases hf : w.slots.find? s with
    | some slot => exact .inl (controlOf_setControl_self c (by rw [hf]; rfl))
    | none =>
      right
      unfold controlOf
      rw [find?_setControl, if_pos rfl, hf]
      rfl
  refine ⟨List.prefix_rfl, fun x => .inl (storageOf_setControl ..), ?_, ?_, ?_, ?_⟩
  · exact fun x h => absurd h (not_tearsDown_of_trace rfl)
  · intro x ho
    rw [storageOf_setControl]
    by_cases hx : x = s
    · subst hx
      rcases hself with e | e <;> rw [e] at ho ⊢
      · exact ⟨(hs ho).1, (hs ho).2, rfl⟩
      · exact ⟨ho, rfl, rfl⟩
    · rw [controlOf_setControl_of_ne _ _ hx] at ho ⊢
      exact ⟨ho, rfl, rfl⟩
  · intro x h0
    by_cases hx : x = s
    · subst hx
      rcases hself with e | e <;> rw [e]
      · exact hc h0
      · exact h0
    · rwa [controlOf_setControl_of_ne _ _ hx]
  · exact fun x _ _ _ h => absurd h (not_tearsDown_of_trace rfl)

/-- The value in a claimed slot announces its end and leaves its remains; no other slot changes. -/
theorem views_destructed (es : List Event) (hv : w.storageOf s = some v)
    (hu : u = w ∧ v.remains = v ∨ u = w.setStorage s v.remains) :
    (u.log es).trace = w.trace ++ es ∧ (∀ x, (u.log es).controlOf x = w.controlOf x) ∧
      (u.log es).storageOf s = some v.remains ∧ ∀ x, x ≠ s → (u.log es).storageOf x = w.storageOf x := by
  rcases hu with ⟨rfl, hr⟩ | rfl
  · exact ⟨rfl, fun _ => rfl, hv.trans (congrArg some hr.symm), fun _ _ => rfl⟩
  · refine ⟨rfl, fun x => controlOf_setStorage .., ?_, fun x hx => storageOf_setStorage_of_ne _ _ hx⟩
    exact storageOf_setStorage_self _ (storageOf_isSome (by rw [hv]; rfl))

theorem Housed.destructed (hw : w.Housed) (es : List Event) (hs : (w.controlOf s).state ≠ .occupied)
    (hv : w.storageOf s = some v) (hu : u = w ∧ v.remains = v ∨ u = w.setStorage s v.remains) : (u.log es).Housed := by
  obtain ⟨-, hcontrol, -, hother⟩ := views_destructed es hv hu
  intro x ho
  rw [hcontrol] at ho ⊢
  have hx : x ≠ s := by
    rintro rfl
    exact hs ho
  rw [hother x hx]
  exact hw x ho

/-- A teardown up to the release of the handle in the value, which names a slot that still counts if it is shared. -/
theorem withers_destructed {es : List Event} (hs : (w.controlOf s).state ≠ .occupied) (hv : w.storageOf s = some v)
    (hq : Quiet es) (hu : u = w ∧ v.remains = v ∨ u = w.setStorage s v.remains)
    (howed : ∀ id h t, v = .snode id h → h.family = .shared → h.slot = some t → (w.controlOf t).count ≠ 0) :
    w.Withers (u.log (.destructed s v.type :: es)) := by
  obtain ⟨htrace, hcontrol, hself, hother⟩ := views_destructed (.destructed s v.type :: es) hv hu
  have honly : ∀ x, w.TearsDown (u.log (.destructed s v.type :: es)) x → x = s := by
    intro x ht
    obtain ⟨t, ht⟩ := ht.mem_since
    rw [since_eq htrace] at ht
    rcases List.mem_cons.mp ht with ht | ht
    · cases ht
      rfl
    · rw [← mem_lifeOf_destructed, hq x] at ht
      cases ht
  refine ⟨⟨_, htrace.symm⟩, ?_, ?_, ?_, ?_, ?_⟩
  · intro x
    by_cases hx : x = s
    · subst hx
      rw [hself, hv]
      exact .inr rfl
    · exact .inl (hother x hx)
  · intro x ht
    obtain rfl := honly x ht
    rw [hself, hv]
    rfl
  · intro x ho
    rw [hcontrol] at ho ⊢
    have hx : x ≠ s := by
      rintro rfl
      exact hs ho
    exact ⟨ho, rfl, hother x hx⟩
  · intro x h0
    rwa [hcontrol]
  · intro x id g t ht hx hf hg
    obtain rfl := honly x ht
    rw [hv] at hx
    exact howed id g t (Option.some_inj.mp hx) hf hg

end World

/-! ### Cascades -/

/-- From a world whose live values are in order, the action only tears down values, or is reported. -/
def Withering (a : Act α) : Prop :=
  ∀ w : World, w.Housed → Ends a w (fun _ w' => w.Withers w') (fun f _ => ∃ v, f = .violation v)

/-- Letting go of a shared handle is reported if its slot counts nothing. -/
theorem withering_releaseWith {td : SlotId → Act Unit} (htd : ∀ s, Withering (td s)) (hw : w.Housed) (h : Handle) :
    Ends (releaseWith td h) w
      (fun _ w' => w.Withers w' ∧ ∀ t, h.family = .shared → h.slot = some t → (w.controlOf t).count ≠ 0)
      (fun f _ => ∃ v, f = .violation v) := by
  unfold releaseWith
  cases hs : h.slot with
  | none => exact ⟨.refl w, fun t _ ht => by cases ht⟩
  | some s =>
    cases hf : h.family with
    | unique => exact (htd s w hw).mono (fun _ _ h => ⟨h, fun t hf _ => by cases hf⟩) fun _ _ h => h
    | shared =>
      have hdrop : (w.controlOf s).count ≠ 0 →
          w.Withers (w.setControl s { w.controlOf s with count := (w.controlOf s).count - 1 }) := fun h0 =>
        withers_setControl (fun ho => ⟨ho, rfl⟩) fun h => absurd h h0
      have hne : (w.controlOf s).count ≠ 0 → ∀ t, Family.shared = .shared → some s = some t →
          (w.controlOf t).count ≠ 0 := by
        rintro h0 t - ⟨⟩
        exact h0
      refine ends_dropWith (fun _ => ⟨_, rfl⟩) (fun h1 => ?_) fun h0 _ => ⟨hdrop h0, hne h0⟩
      have h0 : (w.controlOf s).count ≠ 0 := by
        rw [h1]
        decide
      exact (htd s _ (hw.withers (hdrop h0))).mono (fun _ _ h => ⟨(hdrop h0).trans h, hne h0⟩) fun _ _ h => h

private theorem withering_of_occupied {depth : Nat}
    (h : ∀ w : World, w.Housed → (w.controlOf s).state = .occupied →
      Ends (tearDownWithin depth s) w (fun _ w' => w.Withers w') (fun f _ => ∃ v, f = .violation v)) :
    Withering (tearDownWithin depth s) := by
  intro w hw
  by_cases ho : (w.controlOf s).state = .occupied
  · exact h w hw ho
  · obtain ⟨w', hrun⟩ := tearDownWithin_idle depth ho
    exact (ends_of_error hrun).mpr ⟨_, rfl⟩

/-- A slot that has been claimed, up to its return. -/
private theorem withers_teardown {depth : Nat} (ih : ∀ s, Withering (tearDownWithin depth s)) (hw : w.Housed)
    (hs : (w.controlOf s).state ≠ .occupied) (hv : w.storageOf s = some v) (hp : v.isPassive) :
    Ends (do
      destroyStoredWith (tearDownWithin depth) s v.type
      onControl s ControlBlock.vacate) w (fun _ w' => w.Withers w') (fun f _ => ∃ v, f = .violation v) := by
  obtain ⟨u, hu, hrun⟩ := destroyStoredWith_apply (tearDownWithin depth) hv hp
  have hq := quiet_lastWords (w.controlOf s) v
  generalize v.lastWords (w.controlOf s) = es at hq hrun
  have hcontrol := (views_destructed (.destructed s v.type :: es) hv hu).2.1
  have hwu := hw.destructed (.destructed s v.type :: es) hs hv hu
  -- the handle in the value is let go of, and thereby found to name a slot that still counts
  have hrelease : Ends (releaseNextWith (tearDownWithin depth) v) (u.log (.destructed s v.type :: es))
      (fun _ w' => w.Withers w') (fun f _ => ∃ v, f = .violation v) := by
    unfold releaseNextWith
    cases hn : v.next? with
    | none => exact withers_destructed hs hv hq hu fun id g t hv' => by simp [hv', Value.next?] at hn
    | some h =>
      refine (withering_releaseWith ih hwu h).mono ?_ fun _ _ h => h
      rintro - w' ⟨hw', howed⟩
      refine (withers_destructed hs hv hq hu ?_).trans hw'
      rintro id g t rfl hf hg
      obtain rfl : g = h := Option.some_inj.mp hn
      rw [← hcontrol]
      exact howed t hf hg
  rw [ends_bind, ends_congr hrun]
  refine hrelease.mono ?_ fun _ _ h => h
  intro _ w' hw'
  have hvacate : w'.Withers (w'.setControl s { w'.controlOf s with state := .empty }) :=
    withers_setControl (fun ho => by cases ho) fun h => h
  exact hw'.trans hvacate

/-- A teardown leaves remains, at any depth. -/
theorem withering_tearDownWithin (depth : Nat) (s : SlotId) : Withering (tearDownWithin depth s) := by
  -- claiming the slot changes its state only
  have hclaim : ∀ (w : World) (s : SlotId),
      w.Withers (w.setControl s { w.controlOf s with state := .tearingDown, type := none }) := fun w s =>
    withers_setControl (fun ho => by cases ho) fun h => h
  have hbegin : ∀ (w : World) (s : SlotId), (w.controlOf s).state = .occupied →
      onControl s ControlBlock.beginTeardown w = .ok (w.controlOf s).type
        (w.setControl s { w.controlOf s with state := .tearingDown, type := none }) := fun w s ho =>
    onControl_ok ((ControlBlock.beginTeardown_apply _).trans (if_pos ho))
  induction depth generalizing s with
  | zero =>
    refine withering_of_occupied fun w _ ho => ?_
    exact (ends_of_ok (map_of_ok (f := fun _ => ()) (hbegin w s ho))).mpr (hclaim w s)
  | succ depth ih =>
    refine withering_of_occupied fun w hw ho => ?_
    obtain ⟨v, hv, ht, hp⟩ := hw s ho
    have hb := hbegin w s ho
    rw [ht] at hb
    unfold tearDownWithin
    rw [ends_bind, ends_of_ok hb]
    exact (withers_teardown ih (hw.withers (hclaim w s)) (state_setControl_ne_occupied w s (by simp))
      ((storageOf_setControl ..).trans hv) hp).mono (fun _ _ h => (hclaim w s).trans h) fun _ _ h => h

theorem withering_tearDown (s : SlotId) : Withering (tearDown s) := fun w => withering_tearDownWithin w.liveSlots s w

theorem withering_release (h : Handle) : Withering (release h) := fun _ hw =>
  (withering_releaseWith withering_tearDown hw h).mono (fun _ _ h => h.1) fun _ _ h => h

/-- A shared handle that is let go of while a value still stores it does not tear down that value. -/
theorem release_spares {id : Int32} (hw : w.Housed) (hv : w.storageOf s = some (.snode id old))
    (hf : old.family = .shared) :
    Ends (release old) w (fun _ w' => ¬ w.TearsDown w' s) (fun f _ => ∃ v, f = .violation v) := by
  unfold release releaseWith
  cases hs : old.slot with
  | none => exact not_tearsDown_of_trace rfl
  | some t =>
    rw [hf]
    refine ends_dropWith (fun _ => ⟨_, rfl⟩) (fun h1 => ?_) fun _ _ => not_tearsDown_of_trace rfl
    -- from here on the slot counts nothing, so its handle in the value could not be let go of once more
    have h0 : (w.controlOf t).count ≠ 0 := by
      rw [h1]
      decide
    have hdrop : w.Withers (w.setControl t { w.controlOf t with count := (w.controlOf t).count - 1 }) :=
      withers_setControl (fun ho => ⟨ho, rfl⟩) fun h => absurd h h0
    refine (withering_tearDown t _ (hw.withers hdrop)).mono ?_ fun _ _ h => h
    intro _ w' hw' ht
    refine hw'.owed s id old t ht ((storageOf_setControl ..).trans hv) hf hs ?_
    rw [controlOf_setControl_self _ (find?_isSome_of_count h0), h1]
    rfl

end SlotHandles
