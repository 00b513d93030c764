import SlotHandles.Proofs.Moves

/-!
# Resets, destructions and assignments

The operations that let go of a handle, and with it of everything that only this handle kept alive.  A reset and a
destruction always come to an end.  An assignment does so unless it tears down the value that stores its target or
its source.
-/

namespace SlotHandles

open World

variable {w w' u : World} {p q target source : Holder} {h g old : Handle} {M : Multiset Handle}

theorem cleared_of_empty (hr : h.RefersIn w) (hs : h.slot = none) : h.cleared = h := by
  obtain ⟨family, elem, slot, ref⟩ := h
  obtain rfl : slot = none := hs
  obtain rfl : ref = .empty elem := (Handle.refersIn_of_slot_eq_none rfl).mp hr
  rfl

theorem extends_readHandle (p : Holder) : Extends (readHandle p) := by
  unfold readHandle
  refine extends_bind extends_get fun w => ?_
  cases p with
  | inside s =>
    dsimp only
    split
    · exact extends_bind (extends_record _) fun _ => extends_pure _
    · exact extends_pure _
  | named n | result n | within n => exact extends_pure _

theorem extends_writeHandle (p : Holder) (h : Handle) : Extends (writeHandle p h) := by
  intro w
  rw [ends_of_ok (writeHandle_apply ..)]
  exact ⟨[], by rw [List.append_nil, trace_setHandle]⟩

theorem resetHandle_of_owner (hl : w.live? p = some h) (ho : h.family = .unique → h.slot ≠ none) :
    resetHandle p w = release h (w.setHandle p h.cleared) := by
  unfold resetHandle
  rw [bind_of_ok (readHandle_apply hl)]
  cases hf : h.family with
  | shared => rfl
  | unique =>
    cases hs : h.slot with
    | some s => rfl
    | none => exact absurd hs (ho hf)

/-- A reset takes the handle from its place and lets go of it, whether it is empty or not. -/
theorem resetHandle_apply (hw : w.Sound M) (hl : w.live? p = some h) :
    resetHandle p w = release h (w.setHandle p h.cleared) := by
  by_cases ho : h.family = .unique → h.slot ≠ none
  · exact resetHandle_of_owner hl ho
  · obtain ⟨hf, hs⟩ : h.family = .unique ∧ h.slot = none := by simpa using ho
    unfold resetHandle
    rw [bind_of_ok (readHandle_apply hl), hf, hs, cleared_of_empty (hw.refersIn_of_live hl) hs,
      setHandle_of_live? hw.balanced.distinct hl]
    exact (releaseWith_of_empty hs).symm

/-- A reset tears down what only its handle kept alive, and leaves an empty handle in its place. -/
theorem resetHandle_ok (hw : w.Sound M) (hl : w.live? p = some h) :
    ∃ w', resetHandle p w = .ok () w' ∧ w'.Sound M ∧ w.Evolves w' ∧
      (∀ q g, w.live? q = some g → ¬ w.TornAt w' q → w'.live? q = some (if q = p then g.cleared else g)) ∧
      ∀ name, w.values.find? name = none → w'.values.find? name = none := by
  rw [resetHandle_apply hw hl]
  obtain ⟨w', he, hw', hs⟩ := (hw.lift hl).release
  refine ⟨w', he, hw', (calm_setHandle w p _).trans_evolves hs.evolves, ?_, ?_⟩
  · intro q g hq hn
    have hn' : ¬ (w.setHandle p h.cleared).TornAt w' q := by
      intro ht
      exact hn (ht.widen (calm_setHandle w p _).trace List.prefix_rfl)
    rw [live?_of_sheds hs hn']
    by_cases hqp : q = p
    · subst hqp
      obtain rfl : g = h := Option.some_inj.mp (hq.symm.trans hl)
      rw [if_pos rfl, live?_setHandle_self hl]
    · rw [if_neg hqp, live?_setHandle_of_ne hqp, hq]
  · intro name hname
    rw [hs.values]
    exact find?_values_setHandle hname p _

theorem resetHandle_of_ok (hw : w.Sound M) (hl : w.live? p = some h) (hrun : resetHandle p w = .ok () u) :
    u.Sound M ∧ w.Evolves u ∧
      ∀ q g, w.live? q = some g → ¬ w.TornAt u q → u.live? q = some (if q = p then g.cleared else g) := by
  obtain ⟨u', hrun', hu, hev, hkeep, -⟩ := resetHandle_ok hw hl
  rw [hrun] at hrun'
  cases hrun'
  exact ⟨hu, hev, hkeep⟩

theorem destroyHandle_ok (hw : w.Sound M) (hp : w.held.find? p = some h) (hl : w.live? p = some h) :
    ∃ w', destroyHandle p w = .ok () w' ∧ w'.Sound M ∧ w.Evolves w' := by
  unfold destroyHandle
  rw [bind_of_ok (readHandle_apply hl)]
  obtain ⟨w', he, hw', hs⟩ := (hw.remove hp).release
  have hcalm : w.Calm { w with held := w.held.remove p } :=
    calm_of_controlOf (List.append_nil _).symm quiet_nil fun _ => rfl
  exact ⟨w', he, hw', hcalm.trans_evolves hs.evolves⟩

theorem destroyNamed_ok {name : String} {v : Value} (hw : w.Sound M) (hf : w.values.find? name = some v) :
    ∃ w', destroyNamed name w = .ok () w' ∧ w'.Sound M ∧ w.Evolves w' := by
  have hr := hw.removeValue hf
  obtain ⟨w', he, hb, hs⟩ := destroyValue_ok (v := v) (by rw [← add_assoc]; exact hr.balanced)
  have hcalm : w.Calm (({ w with values := w.values.remove name } : World).log v.parting) :=
    calm_of_controlOf rfl (quiet_parting v) fun _ => rfl
  refine ⟨w', ?_, ?_, hcalm.trans_evolves hs.evolves⟩
  · unfold destroyNamed
    rw [bind_of_ok (rfl : (get : Act World) w = .ok w w), hf]
    exact he
  · exact (hr.log v.parting).of_sheds hs hb

/-! ### Assignments -/

theorem assignByMove_self (h : target = source) (w : World) : assignByMove target source w = .ok () w := by
  unfold assignByMove
  rw [if_neg (not_not_intro h)]
  rfl

/-- An exclusive target is reset first, and its source is moved from afterwards. -/
theorem assignByMove_of_unique (ht : w.live? target = some old) (hf : old.family = .unique) (hne : target ≠ source) :
    assignByMove target source w = (do
      resetHandle target
      let new ← moveHandle old.elem source
      writeHandle target new) w := by
  unfold assignByMove
  rw [if_pos hne, bind_of_ok (readHandle_apply ht), hf]

/-- A shared source is moved from first, and the old handle of the target is let go of where it stands. -/
theorem assignByMove_of_shared (ht : w.live? target = some old) (hf : old.family = .shared)
    (hs : w.live? source = some h) (hne : target ≠ source) :
    assignByMove target source w = (do
      release old
      writeHandle target (h.convert old.elem)) (w.setHandle source h.cleared) := by
  unfold assignByMove
  rw [if_pos hne, bind_of_ok (readHandle_apply ht), hf]
  dsimp only
  rw [bind_of_ok (moveHandle_apply hs old.elem)]

theorem World.Sound.settle (hw : (w.setHandle p old.cleared).Sound (g ::ₘ M)) (hl : w.live? p = some old)
    (hf : g.family = old.family) (he : g.elem = old.elem) : (w.setHandle p g).Sound M := by
  have hput := hw.put (live?_setHandle_self hl _) rfl hf he
  rwa [setHandle_setHandle] at hput

/-- A handle that still stands at its place is let go of; then the one in hand can replace it. -/
theorem release_settle (hw : w.Sound (g ::ₘ M)) (hl : w.live? target = some old) (hf : g.family = old.family)
    (he : g.elem = old.elem) :
    Ends (release old) w (fun _ u => w.TornAt u target ∨ (u.setHandle target g).Sound M ∧ w.Sheds u)
      (fun _ u => w.TornAt u target) := by
  refine (hw.lift hl).releaseDisplaced.mono ?_ fun _ _ h => h
  intro _ u hu
  by_cases ht : w.TornAt u target
  · exact .inl ht
  rcases hu with ht' | ⟨hu, hs⟩
  · exact absurd ht' ht
  · exact .inr ⟨hu.settle ((live?_of_sheds hs ht).trans hl) hf he, hs⟩

theorem extends_moveHandle (elem : Ty) (p : Holder) : Extends (moveHandle elem p) :=
  extends_bind (extends_readHandle p) fun _ => extends_bind (extends_writeHandle p _) fun _ => extends_pure _

/-- The assignment tears down the value that stores its target or its source. -/
def World.Upsets (w w' : World) (target source : Holder) : Prop := w.TornAt w' target ∨ w.TornAt w' source

theorem World.Upsets.widen {u' : World} (h : w.Upsets w' target source) (hu : u.trace <+: w.trace)
    (hu' : w'.trace <+: u'.trace) : u.Upsets u' target source :=
  h.imp (fun h => h.widen hu hu') fun h => h.widen hu hu'

/-- Once the target or the source is gone, it stays gone. -/
theorem ends_of_upsets {a : Act Unit} {good : Unit → World → Prop} (ha : Extends a) (h : w.Upsets u target source) :
    Ends a u (fun x w' => w.Upsets w' target source ∨ good x w') (fun _ w' => w.Upsets w' target source) :=
  (ha u).mono (fun _ _ hw' => .inl (h.widen List.prefix_rfl hw')) fun _ _ hw' => h.widen List.prefix_rfl hw'

theorem assignByMove_ends (hw : w.Sound M) (ht : w.live? target = some old) (hs : w.live? source = some h)
    (hf : old.family = h.family) (hc : Run.convertible old.elem h.elem) :
    Ends (assignByMove target source) w (fun _ w' => w.Upsets w' target source ∨ w'.Sound M ∧ w.Evolves w')
      (fun _ w' => w.Upsets w' target source) := by
  by_cases hne : target = source
  · rw [ends_of_ok (assignByMove_self hne w)]
    exact .inr ⟨hw, (Calm.refl w).evolves⟩
  cases hfam : old.family with
  | unique =>
    obtain ⟨u, hrun, hu, hev, hkeep, -⟩ := resetHandle_ok hw ht
    rw [ends_congr (assignByMove_of_unique ht hfam hne), ends_bind, ends_of_ok hrun]
    by_cases hup : w.Upsets u target source
    · exact ends_of_upsets (extends_bind (extends_moveHandle _ _) fun _ => extends_writeHandle _ _) hup
    have htarget : u.live? target = some old.cleared := by
      rw [hkeep target old ht fun h => hup (.inl h), if_pos rfl]
    have hsource : u.live? source = some h := by
      rw [hkeep source h hs fun h => hup (.inr h), if_neg (Ne.symm hne)]
    have htarget' : (u.setHandle source h.cleared).live? target = some old.cleared :=
      (live?_setHandle_of_ne hne _).trans htarget
    rw [ends_bind, ends_of_ok (moveHandle_apply hsource _), ends_of_ok (writeHandle_apply ..)]
    refine .inr ⟨?_, hev.trans_calm ((calm_setHandle u source _).trans (calm_setHandle _ target _))⟩
    exact ((hu.lift hsource).convert hc).put htarget' rfl ((Handle.family_convert ..).trans hf.symm)
      (Handle.elem_convert ..)
  | shared =>
    rw [ends_congr (assignByMove_of_shared ht hfam hs hne), ends_bind]
    have hcalm := calm_setHandle w source h.cleared
    have htarget : (w.setHandle source h.cleared).live? target = some old := (live?_setHandle_of_ne hne _).trans ht
    refine (release_settle ((hw.lift hs).convert hc) htarget ((Handle.family_convert ..).trans hf.symm)
      (Handle.elem_convert ..)).mono ?_ fun _ u h => .inl (h.widen hcalm.trace List.prefix_rfl)
    rintro - u (hu | ⟨hu, hsh⟩)
    · exact ends_of_upsets (extends_writeHandle _ _) (.inl (hu.widen hcalm.trace List.prefix_rfl))
    · rw [ends_of_ok (writeHandle_apply ..)]
      exact .inr ⟨hu, (hcalm.trans_evolves hsh.evolves).trans_calm (calm_setHandle ..)⟩

theorem assignByCopy_eq (target source : Holder) :
    assignByCopy target source = (do
      let h ← readHandle source
      countShared h
      let old ← readHandle target
      release old
      let new ← readHandle source
      writeHandle target (new.convert old.elem)) := by
  unfold assignByCopy countShared
  congr
  funext h
  cases h.slot <;> rfl

theorem assignByCopy_ends (hw : w.Sound M) (ht : w.live? target = some old) (hs : w.live? source = some h)
    (hfo : old.family = .shared) (hfh : h.family = .shared) (hc : Run.convertible old.elem h.elem) :
    Ends (assignByCopy target source) w (fun _ w' => w.Upsets w' target source ∨ w'.Sound M ∧ w.Evolves w')
      (fun f w' => w.Upsets w' target source ∨ w.Overflows f) := by
  -- the reference is counted before the old handle is let go of, so an assignment from the same slot does not
  -- tear it down
  rw [assignByCopy_eq, ends_bind, ends_of_ok (readHandle_apply hs), ends_bind]
  refine (countShared_ends hw (hw.mem_of_live hs) hfh).mono ?_ fun _ _ h => .inr h
  rintro - w₁ ⟨hw₁, hcounts⟩
  have hcalm := hcounts.calm
  have hlive := hcounts.live?
  rw [ends_bind, ends_of_ok (readHandle_apply ((hlive target).trans ht)), ends_bind]
  have hrest : Extends (do
      let new ← readHandle source
      writeHandle target (new.convert old.elem)) :=
    extends_bind (extends_readHandle source) fun _ => extends_writeHandle target _
  refine (release_settle (hw₁.convert hc) ((hlive target).trans ht)
    ((Handle.family_convert ..).trans (hfh.trans hfo.symm)) (Handle.elem_convert ..)).mono ?_
    fun _ u h => .inl (.inl (h.widen hcalm.trace List.prefix_rfl))
  intro _ u hu
  by_cases hup : w₁.Upsets u target source
  · exact (ends_of_upsets hrest (hup.widen hcalm.trace List.prefix_rfl)).mono (fun _ _ h => h) fun _ _ h => .inl h
  rcases hu with hu | ⟨hu, hsh⟩
  · exact absurd (.inl hu) hup
  have hsource : u.live? source = some h :=
    (live?_of_sheds hsh fun h => hup (.inr h)).trans ((hlive source).trans hs)
  rw [ends_bind, ends_of_ok (readHandle_apply hsource), ends_of_ok (writeHandle_apply ..)]
  exact .inr ⟨hu, (hcalm.trans_evolves hsh.evolves).trans_calm (calm_setHandle ..)⟩

end SlotHandles
