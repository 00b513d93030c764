import SlotHandles.Proofs.Remains

/-!
# Assignments that tear down their own places

An assignment may tear down the value that stores its source or its target.  An exclusive source is then found empty,
and a shared one as it was.  An exclusive target takes its new handle into the storage of a dead value, where the handle
is lost: it keeps its value alive, but no program can reach it any more.  A shared target cannot be torn down by its own
assignment without a report.  So the world stays sound up to the handles that were lost.
-/

namespace SlotHandles

open World

variable {w w' u : World} {p q target source : Holder} {h g old : Handle} {s : SlotId} {v : Value}
  {M : Multiset Handle} {elem : Ty}

/-! ### Places in dead storage -/

theorem Value.IsProper.eq_node (hv : v.IsProper) (hn : v.next? = some h) (hf : h.family = .unique) :
    ∃ id, v = .node id h := by
  have hlink := hv.link h hn
  cases v with
  | node id next =>
    cases hn
    exact ⟨id, rfl⟩
  | snode id next =>
    simp only [Value.type, StoredType.link?, Option.some.injEq, Prod.mk.injEq] at hlink
    rw [hf] at hlink
    cases hlink.1
  | _ => cases hn

theorem Value.IsProper.eq_snode (hv : v.IsProper) (hn : v.next? = some h) (hf : h.family = .shared) :
    ∃ id, v = .snode id h := by
  have hlink := hv.link h hn
  cases v with
  | snode id next =>
    cases hn
    exact ⟨id, rfl⟩
  | node id next =>
    simp only [Value.type, StoredType.link?, Option.some.injEq, Prod.mk.injEq] at hlink
    rw [hf] at hlink
    cases hlink.1
  | _ => cases hn

namespace World

/-- Reading a handle announces nothing but that its value is dead, if it is. -/
theorem readHandle_quiet (p : Holder) (w : World) : ∃ es, Quiet es ∧
    readHandle p w = .ok ((w.handle? p).getD (.empty .unique (.ofKind .node))) (w.log es) := by
  have hlog : w.log [] = w := by rw [World.log, List.append_nil]
  unfold readHandle
  rw [bind_of_ok (rfl : (get : Act World) w = .ok w w)]
  cases p with
  | inside s =>
    dsimp only
    by_cases ho : (w.controlOf s).state = .occupied
    · rw [if_neg (not_not_intro ho)]
      exact ⟨[], quiet_nil, by rw [hlog]; rfl⟩
    · rw [if_pos ho]
      exact ⟨[.readAfterDestruction s], fun _ => rfl, rfl⟩
  | named n | result n | within n => exact ⟨[], quiet_nil, by rw [hlog]; rfl⟩

theorem readHandle_of_handle? (hh : w.handle? p = some h) :
    ∃ es, Quiet es ∧ readHandle p w = .ok h (w.log es) := by
  obtain ⟨es, hq, hread⟩ := readHandle_quiet p w
  rw [hh] at hread
  exact ⟨es, hq, hread⟩

theorem storageOf_setHandle_of_ne (hp : p ≠ .inside s) (h : Handle) :
    (w.setHandle p h).storageOf s = w.storageOf s := by
  cases p with
  | inside t =>
    have hst : s ≠ t := fun e => hp (e ▸ rfl)
    unfold setHandle
    dsimp only
    split
    · exact storageOf_setStorage_of_ne _ _ hst
    · rfl
  | named n | result n => rfl
  | within n =>
    unfold setHandle
    dsimp only
    split <;> rfl

theorem log_setHandle (w : World) (es : List Event) (p : Holder) (h : Handle) :
    (w.log es).setHandle p h = (w.setHandle p h).log es := by
  cases p with
  | named n | result n => rfl
  | inside s =>
    unfold setHandle
    dsimp only
    rw [storageOf_log]
    cases w.storageOf s <;> rfl
  | within n =>
    unfold setHandle
    dsimp only [World.log]
    cases w.values.find? n <;> rfl

/-- The storage of a dead value is of no account. -/
theorem Sound.setHandle_dead (hw : w.Sound M) (hs : (w.controlOf s).state ≠ .occupied) (h : Handle) :
    (w.setHandle (.inside s) h).Sound M := by
  unfold setHandle
  dsimp only
  split
  · exact ⟨hw.balanced.setStorage_idle hs _, hw.held, hw.values, hw.proper⟩
  · exact hw

/-- A place in a value that was torn down is not in a live one. -/
theorem Evolves.idle_of_tearsDown (h : w.Evolves u) (ht : w.TearsDown u s) : (u.controlOf s).state ≠ .occupied :=
  ((h.slot s).destroys_iff.mp ht.mem_since).2

end World

/-! ### Exclusive handles -/

theorem resetHandle_withers (hw : w.Sound M) (hl : w.live? p = some h) :
    Ends (resetHandle p) w (fun _ u => u = w ∨ (w.setHandle p h.cleared).Withers u)
      (fun f _ => ∃ v, f = .violation v) := by
  have hrest : Ends (do writeHandle p h.cleared; release h) w
      (fun _ u => u = w ∨ (w.setHandle p h.cleared).Withers u) (fun f _ => ∃ v, f = .violation v) := by
    rw [ends_bind, ends_of_ok (writeHandle_apply ..)]
    exact (withering_release h _ (hw.lift hl).housed).mono (fun _ _ h => .inr h) fun _ _ h => h
  unfold resetHandle
  rw [ends_bind, ends_of_ok (readHandle_apply hl)]
  cases hf : h.family with
  | shared => exact hrest
  | unique =>
    cases hs : h.slot with
    | none => exact .inl rfl
    | some s => exact hrest

/-- An exclusive handle whose value was torn down by the reset of another one is found empty. -/
theorem handle?_of_tornAt (hw : w.Sound M) (ht : w.live? target = some old) (hs : w.live? source = some h)
    (hf : h.family = .unique) (hne : target ≠ source) (hrun : resetHandle target w = .ok () u)
    (htorn : w.TornAt u source) : u.handle? source = some h.cleared := by
  obtain ⟨s, rfl, htears⟩ := htorn
  obtain ⟨ho, v, hv, hn⟩ := nestedIn_eq_some_iff.mp hs
  obtain ⟨id, rfl⟩ := (hw.balanced.value_of_storage ho hv).2.2.eq_node hn hf
  rcases (resetHandle_withers hw ht).ok hrun with rfl | hwithers
  · exact absurd htears (not_tearsDown_of_trace rfl)
  have htrace := trace_setHandle w target old.cleared
  have hremains := hwithers.torn s (htears.widen (htrace ▸ List.prefix_rfl) List.prefix_rfl)
  rw [storageOf_setHandle_of_ne hne, hv] at hremains
  unfold handle?
  dsimp only
  rw [hremains]
  rfl

/-- After the reset of the target an exclusive source is moved from, wherever it is by then. -/
theorem moveHandle_after_reset (hw : w.Sound M) (ht : w.live? target = some old) (hs : w.live? source = some h)
    (hf : h.family = .unique) (hne : target ≠ source) (hc : Run.convertible elem h.elem)
    (hrun : resetHandle target w = .ok () u) :
    ∃ g u', moveHandle elem source u = .ok g u' ∧ u'.Sound (g ::ₘ M) ∧ w.Evolves u' ∧ g.family = .unique ∧
      g.elem = elem ∧
      ((∃ s, target = .inside s ∧ (u'.controlOf s).state ≠ .occupied) ∨ u'.live? target = some old.cleared) := by
  obtain ⟨hu, hev, hkeep⟩ := resetHandle_of_ok hw ht hrun
  -- what becomes of the target does not depend on the source
  have htarget : ∀ u' : World, (∀ s, u'.controlOf s = u.controlOf s) → u'.live? target = u.live? target →
      (∃ s, target = .inside s ∧ (u'.controlOf s).state ≠ .occupied) ∨ u'.live? target = some old.cleared := by
    intro u' hcontrol hlive
    by_cases htorn : w.TornAt u target
    · obtain ⟨s, rfl, htears⟩ := htorn
      exact .inl ⟨s, rfl, by rw [hcontrol]; exact hev.idle_of_tearsDown htears⟩
    · rw [hlive, hkeep target old ht htorn, if_pos rfl]
      exact .inr rfl
  by_cases htorn : w.TornAt u source
  · obtain ⟨es, hq, hread⟩ := readHandle_of_handle? (handle?_of_tornAt hw ht hs hf hne hrun htorn)
    obtain ⟨s, rfl, htears⟩ := htorn
    have hidle : ((u.log es).controlOf s).state ≠ .occupied := hev.idle_of_tearsDown htears
    have hmove : moveHandle elem (.inside s) u =
        .ok (h.cleared.convert elem) ((u.log es).setHandle (.inside s) h.cleared.cleared) := by
      unfold moveHandle
      rw [bind_of_ok hread]
      rfl
    have hsound : ((u.log es).setHandle (.inside s) h.cleared.cleared).Sound M := (hu.log es).setHandle_dead hidle _
    have hempty := (Sound.cons_iff_of_empty (h := h.cleared) rfl (Handle.refersIn_cleared _ h)).mpr hsound
    refine ⟨_, _, hmove, hempty.convert hc, ?_, (Handle.family_convert ..).trans hf, Handle.elem_convert .., ?_⟩
    · exact hev.trans_calm ((calm_log hq).trans (calm_setHandle ..))
    · refine htarget _ (fun x => (controlOf_setHandle ..).trans (controlOf_log ..)) ?_
      rw [live?_setHandle_of_ne hne]
      rfl
  · have hsource : u.live? source = some h := by
      rw [hkeep source h hs htorn, if_neg (Ne.symm hne)]
    refine ⟨_, _, moveHandle_apply hsource elem, (hu.lift hsource).convert hc, hev.trans_calm (calm_setHandle ..),
      (Handle.family_convert ..).trans hf, Handle.elem_convert .., ?_⟩
    exact htarget _ (fun x => controlOf_setHandle ..) (live?_setHandle_of_ne hne _)

/-! ### Shared handles -/

/-- The release of a shared handle does not tear down the value that still stores it. -/
theorem release_spares_place (hw : w.Sound M) (hl : w.live? p = some old) (hf : old.family = .shared) :
    Ends (release old) w (fun _ u => ¬ w.TornAt u p) (fun f _ => ∃ v, f = .violation v) := by
  cases p with
  | inside s =>
    obtain ⟨ho, v, hv, hn⟩ := nestedIn_eq_some_iff.mp hl
    obtain ⟨id, rfl⟩ := (hw.balanced.value_of_storage ho hv).2.2.eq_snode hn hf
    refine (release_spares hw.housed hv hf).mono ?_ fun _ _ h => h
    rintro - u hspared ⟨t, hst, ht⟩
    cases hst
    exact hspared ht
  | named n | result n | within n =>
    refine (withering_release old w hw.housed).mono ?_ fun _ _ h => h
    rintro - u - ⟨t, hst, -⟩
    cases hst

/-- The old handle of a shared target is let go of, and the target is still there for the new one. -/
theorem release_replaced (hw : w.Sound (g ::ₘ M)) (hl : w.live? target = some old) (ho : old.family = .shared)
    (hf : g.family = old.family) (he : g.elem = old.elem) :
    Ends (release old) w (fun _ u => (u.setHandle target g).Sound M ∧ w.Sheds u ∧ w.Withers u)
      (fun f _ => ∃ v, f = .violation v) := by
  have hsettle := release_settle hw hl hf he
  have hspares := release_spares_place hw hl ho
  have hwithers := withering_release old w hw.housed
  refine (hsettle.and (hspares.and hwithers)).mono ?_ fun _ _ h => h.2.1
  rintro - u ⟨htorn | ⟨hu, hs⟩, hspared, hu'⟩
  · exact absurd htorn hspared
  · exact ⟨hu, hs, hu'⟩

/-- A shared handle is still read at its place after its value was torn down. -/
theorem handle?_of_withers (hw : w.Sound M) (hs : w.live? source = some h) (hf : h.family = .shared)
    (hsh : w.Sheds u) (hu : w.Withers u) : u.handle? source = some h := by
  by_cases htorn : w.TornAt u source
  · obtain ⟨s, rfl, htears⟩ := htorn
    obtain ⟨ho, v, hv, hn⟩ := nestedIn_eq_some_iff.mp hs
    obtain ⟨id, rfl⟩ := (hw.balanced.value_of_storage ho hv).2.2.eq_snode hn hf
    have hremains := hu.torn s htears
    rw [hv] at hremains
    unfold handle?
    dsimp only
    rw [hremains]
    rfl
  · exact handle?_of_live? ((live?_of_sheds hsh htorn).trans hs)

/-! ### Assignments -/

/-- A handle that is written to a dead value is lost. -/
theorem World.Sound.write (hw : u.Sound (g ::ₘ M)) (hf : g.family = old.family) (he : g.elem = old.elem)
    (ht : (∃ s, target = .inside s ∧ (u.controlOf s).state ≠ .occupied) ∨ u.live? target = some old.cleared) :
    ∃ lost, (u.setHandle target g).Sound (lost + M) ∧ ∀ k ∈ lost, k.family = g.family := by
  rcases ht with ⟨s, rfl, hidle⟩ | hl
  · exact ⟨{g}, hw.setHandle_dead hidle g, fun k hk => by rw [Multiset.mem_singleton.mp hk]⟩
  · exact ⟨0, by simpa using hw.put hl rfl hf he, by simp⟩

theorem assignByMove_loses (hw : w.Sound M) (ht : w.live? target = some old) (hs : w.live? source = some h)
    (hf : old.family = h.family) (hc : Run.convertible old.elem h.elem) :
    Ends (assignByMove target source) w
      (fun _ w' => (∃ lost, w'.Sound (lost + M) ∧ ∀ k ∈ lost, k.family = .unique) ∧ w.Evolves w')
      (fun f _ => ∃ v, f = .violation v) := by
  by_cases hne : target = source
  · rw [ends_of_ok (assignByMove_self hne w)]
    exact ⟨⟨0, by simpa using hw, by simp⟩, (Calm.refl w).evolves⟩
  cases hfam : old.family with
  | unique =>
    obtain ⟨u, hrun, -, -, -, -⟩ := resetHandle_ok hw ht
    obtain ⟨g, u', hmove, hu', hev, hgf, hge, htarget⟩ :=
      moveHandle_after_reset hw ht hs (hf.symm.trans hfam) hne hc hrun
    rw [ends_congr (assignByMove_of_unique ht hfam hne), ends_bind, ends_of_ok hrun, ends_bind, ends_of_ok hmove,
      ends_of_ok (writeHandle_apply ..)]
    obtain ⟨lost, hw', hlost⟩ := hu'.write (hgf.trans hfam.symm) hge htarget
    exact ⟨⟨lost, hw', fun k hk => (hlost k hk).trans hgf⟩, hev.trans_calm (calm_setHandle ..)⟩
  | shared =>
    rw [ends_congr (assignByMove_of_shared ht hfam hs hne), ends_bind]
    have hcalm := calm_setHandle w source h.cleared
    refine (release_replaced ((hw.lift hs).convert hc) ((live?_setHandle_of_ne hne _).trans ht) hfam
      ((Handle.family_convert ..).trans hf.symm) (Handle.elem_convert ..)).mono ?_ fun _ _ h => h
    rintro - u ⟨hu, hsh, -⟩
    rw [ends_of_ok (writeHandle_apply ..)]
    exact ⟨⟨0, by simpa using hu, by simp⟩, (hcalm.trans_evolves hsh.evolves).trans_calm (calm_setHandle ..)⟩

theorem assignByCopy_keeps (hw : w.Sound M) (ht : w.live? target = some old) (hs : w.live? source = some h)
    (hfo : old.family = .shared) (hfh : h.family = .shared) (hc : Run.convertible old.elem h.elem) :
    Ends (assignByCopy target source) w (fun _ w' => w'.Sound M ∧ w.Evolves w') (fun f _ => ∃ v, f = .violation v) := by
  rw [assignByCopy_eq, ends_bind, ends_of_ok (readHandle_apply hs), ends_bind]
  refine (countShared_ends hw (hw.mem_of_live hs) hfh).mono ?_ fun _ _ h => ⟨_, h.1⟩
  rintro - w₁ ⟨hw₁, hcounts⟩
  have hlive := hcounts.live?
  rw [ends_bind, ends_of_ok (readHandle_apply ((hlive target).trans ht)), ends_bind]
  refine (release_replaced (hw₁.convert hc) ((hlive target).trans ht) hfo
    ((Handle.family_convert ..).trans (hfh.trans hfo.symm)) (Handle.elem_convert ..)).mono ?_ fun _ _ h => h
  rintro - u ⟨hu, hsh, hwithers⟩
  obtain ⟨es, hq, hread⟩ := readHandle_of_handle? (handle?_of_withers hw₁ ((hlive source).trans hs) hfh hsh hwithers)
  rw [ends_bind, ends_of_ok hread, ends_of_ok (writeHandle_apply ..), log_setHandle]
  refine ⟨hu.log es, ?_⟩
  exact ((hcounts.calm.trans_evolves hsh.evolves).trans_calm (calm_setHandle ..)).trans_calm (calm_log hq)

end SlotHandles
