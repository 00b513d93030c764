import SlotHandles.Proofs.Taking

/-!
# Steps of handle programs

Every step of a handle program keeps a sound world sound, and gives each slot at most one turn (`step_ends`).  So every
world a handle program can be in is sound, and every slot in it is empty or holds a value (`Reachable.sound`).
-/

namespace SlotHandles

open World

variable {w w' : World} {p into target source : Holder} {h g old : Handle} {M : Multiset Handle} {elem : Ty}
  {slots : Table SlotId Slot}

/-! ### One step -/

section

variable {st : HandleStep} {f : Failure}

theorem fails_of_overflow (hf : w.Overflows f) (w' : World) : w.Fails M (st.Misuses w) f w' :=
  fails_of_violation w w' M hf.1 hf.2

theorem fails_of_empty (hp : st.looksThrough = some p) (hl : w.live? p = some h) (hf : h.FailsEmpty f) (w' : World) :
    w.Fails M (st.Misuses w) f w' :=
  fails_of_violation w w' M hf.1 ⟨p, h, hp, hl, hf.2, rfl⟩

theorem fails_of_item {i : Nat} (hp : st.looksThrough = some p) (hi : st.index? = some i) (hl : w.live? p = some h)
    (hf : h.FailsAt i f) (w' : World) : w.Fails M (st.Misuses w) f w' := by
  rcases hf with hf | ⟨hf, hn⟩
  · exact fails_of_empty hp hl hf w'
  · exact fails_of_violation w w' M hf ⟨p, h, hp, hi, hl, rfl, hn⟩

end

theorem World.Counts.vacant (h : w.Counts w') (hp : w.Vacant p) : w'.Vacant p := by
  unfold Vacant
  rw [h.held]
  exact hp

theorem keep_ends {a : Act Handle} {blame : Violation → Prop}
    (ha : Ends a w (fun g u => u.Sound (g ::ₘ M) ∧ w.Evolves u ∧ u.Vacant into) (fun f w' => w.Fails M blame f w')) :
    Ends (a >>= keepHandle into) w (fun _ w' => w'.Sound M ∧ w.Evolves w') (fun f w' => w.Fails M blame f w') := by
  rw [ends_bind]
  refine ha.mono ?_ fun _ _ h => h
  rintro g u ⟨hu, hev, hinto⟩
  obtain ⟨w', hrun, hw', hcalm⟩ := keepHandle_ok hu hinto
  exact (ends_of_ok hrun).mpr ⟨hw', hev.trans_calm hcalm⟩

theorem not_upsets (h : ∀ s, .inside s ∈ [target, source] → ∀ t, Event.destructed s t ∉ w'.since w) :
    ¬ w.Upsets w' target source := by
  have htorn : ∀ p, p ∈ [target, source] → ¬ w.TornAt w' p := by
    rintro p hp ⟨s, rfl, ht⟩
    obtain ⟨t, ht⟩ := ht.mem_since
    exact h s hp t ht
  rintro (ht | ht)
  · exact htorn target (by simp) ht
  · exact htorn source (by simp) ht

theorem misuses_of_mistakesTaking {name : String} (hl : w.live? p = some h) (v : Violation)
    (hv : w.MistakesTaking h v) : (HandleStep.take name p).Misuses w v := by
  cases v with
  | takingEmpty => exact ⟨name, p, h, rfl, hl, hv⟩
  | takingSlice =>
    obtain ⟨s, t, hs, ht, hne⟩ := hv
    exact ⟨name, p, h, s, t, rfl, hl, hs, ht, hne⟩
  | countOverflow => exact hv
  | _ => exact hv.elim

/-- A slot that takes the value gets it, unless the constructor throws. -/
theorem run_make_ends {s : SlotId} {family : Family} {o : Origin} (hw : w.Sound M) (hinto : w.Vacant into)
    (hx : (w.slots.find? s).isSome) (ho : elem.owns o.type.ty) (hn : o.seed.IsNew) (throwing : Bool) :
    Ends (HandleStep.make into s family elem o throwing).run w
      (fun a w' => (w'.Sound M ∧ w.Evolves w') ∧ (w.Takes s o.type → a = .done ∧ w'.typeIn s = some o.type))
      (fun f w' => w.Fails M (fun _ => False) f w' ∧ (w.Takes s o.type → ∃ t, f = .exception t ∧ o.Throws w s t)) := by
  have hkeep : ∀ (m : Made) (u : World),
      u.Sound (m.handle ::ₘ M) ∧ w.Evolves u ∧ u.held = w.held ∧ u.typeIn s = some o.type →
      Ends (keepHandle into m.handle) u
        (fun a w' => (w'.Sound M ∧ w.Evolves w') ∧ (w.Takes s o.type → a = .done ∧ w'.typeIn s = some o.type))
        (fun f w' => w.Fails M (fun _ => False) f w' ∧
          (w.Takes s o.type → ∃ t, f = .exception t ∧ o.Throws w s t)) := by
    rintro m u ⟨hu, hev, hheld, htype⟩
    have hinto' : u.Vacant into := by
      unfold Vacant
      rw [hheld]
      exact hinto
    obtain ⟨w', hrun, hw', hcalm⟩ := keepHandle_ok hu hinto'
    exact (ends_of_ok hrun).mpr ⟨⟨hw', hev.trans_calm hcalm⟩, fun _ => ⟨rfl, (hcalm.type s).trans htype⟩⟩
  unfold HandleStep.run
  dsimp only
  cases throwing with
  | true =>
    rw [if_pos rfl, ends_bind, ends_map]
    exact (makeOrThrow_ends hw hx ho hn).mono (fun m u hu => hkeep m u hu) fun _ _ h => h
  | false =>
    rw [if_neg (by simp), ends_bind]
    refine (make_ends hw hx ho hn).mono ?_ fun _ _ h => ⟨h.1, fun _ => h.2⟩
    intro r u hr
    cases r with
    | error e =>
      obtain ⟨rfl, htakes⟩ := hr
      exact ⟨⟨hw, (Calm.refl u).evolves⟩, fun ht => absurd ht htakes⟩
    | ok m => exact hkeep m u hr

/-- A step that is admissible and undisturbed keeps a sound world sound, and gives each slot at most one turn.  It
ends in a violation only when it is misused. -/
theorem step_ends (st : HandleStep) (hw : w.Sound M) (ha : st.Admissible w) :
    Ends st.run w (fun _ w' => st.Undisturbed w w' → w'.Sound M ∧ w.Evolves w')
      (fun f w' => st.Undisturbed w w' → w.Fails M (st.Misuses w) f w') := by
  -- only assignments need to be undisturbed
  have settle : ∀ {α : Type} {a : Act α},
      Ends a w (fun _ w' => w'.Sound M ∧ w.Evolves w') (fun f w' => w.Fails M (st.Misuses w) f w') →
      Ends a w (fun _ w' => st.Undisturbed w w' → w'.Sound M ∧ w.Evolves w')
        (fun f w' => st.Undisturbed w w' → w.Fails M (st.Misuses w) f w') :=
    fun h => h.mono (fun _ _ h _ => h) fun _ _ h _ => h
  cases st with
  | empty into family elem =>
    have hempty : w.Sound (.empty family elem ::ₘ M) :=
      (Sound.cons_iff_of_empty rfl (Handle.refersIn_empty ..)).mpr hw
    obtain ⟨w', hrun, hw', hcalm⟩ := keepHandle_ok hempty ha.1
    exact settle ((ends_of_ok hrun).mpr ⟨hw', hcalm.evolves⟩)
  | make into s family elem o throwing =>
    obtain ⟨hinto, hx, ho, -, hn⟩ := ha
    refine settle ((run_make_ends hw hinto hx ho hn throwing).mono (fun _ _ h => h.1) ?_)
    exact fun _ _ h => h.1.mono fun _ h => h.elim
  | constructByMove into elem source =>
    obtain ⟨hinto, h, hl, hc⟩ := ha
    obtain ⟨w', hrun, hw', hcalm, hvacant⟩ := moveHandle_ok hw hl hc
    exact settle (keep_ends ((ends_of_ok hrun).mpr ⟨hw', hcalm.evolves, hvacant into hinto⟩))
  | constructByCopy into elem source =>
    obtain ⟨hinto, h, hl, hf, hc⟩ := ha
    refine settle (keep_ends ((copyHandle_ends hw hl hf hc).mono ?_ fun f w' h => fails_of_overflow h w'))
    rintro g w' ⟨hw', hcounts⟩
    exact ⟨hw', hcounts.calm.evolves, hcounts.vacant hinto⟩
  | assignByMove target source =>
    obtain ⟨old, h, ht, hs, hf, hc⟩ := ha
    unfold HandleStep.run
    rw [ends_bind]
    refine (assignByMove_ends hw ht hs hf hc).mono ?_ ?_
    · exact fun _ w' h hu => h.resolve_left (not_upsets hu)
    · exact fun f w' h hu => absurd h (not_upsets hu)
  | assignByCopy target source =>
    obtain ⟨old, h, ht, hs, hfo, hfh, hc⟩ := ha
    unfold HandleStep.run
    rw [ends_bind]
    refine (assignByCopy_ends hw ht hs hfo hfh hc).mono ?_ ?_
    · exact fun _ w' h hu => h.resolve_left (not_upsets hu)
    · exact fun f w' h hu => fails_of_overflow (h.resolve_left (not_upsets hu)) w'
  | reset p =>
    obtain ⟨h, hl⟩ := ha
    obtain ⟨w', hrun, hw', hev, -⟩ := resetHandle_ok hw hl
    unfold HandleStep.run
    rw [ends_bind]
    exact (ends_of_ok hrun).mpr fun _ => ⟨hw', hev⟩
  | destroy p =>
    obtain ⟨hown, h, hp⟩ := ha
    have hl : w.live? p = some h := by
      cases p with
      | named n | result n => exact hp
      | inside s | within n => cases hown
    obtain ⟨w', hrun, hw', hev⟩ := destroyHandle_ok hw hp hl
    unfold HandleStep.run
    rw [ends_bind]
    exact (ends_of_ok hrun).mpr fun _ => ⟨hw', hev⟩
  | swap p q =>
    obtain ⟨a, b, hp, hq, hf, he⟩ := ha
    obtain ⟨w', hrun, hw', hcalm⟩ := swapHandles_ok hw hp hq hf he
    unfold HandleStep.run
    rw [ends_bind]
    exact (ends_of_ok hrun).mpr fun _ => ⟨hw', hcalm.evolves⟩
  | castByMove into elem source =>
    obtain ⟨hinto, he, h, hl⟩ := ha
    obtain ⟨g, w', hrun, hw', hcalm, hvacant⟩ := castByMove_ok hw hl he
    exact settle (keep_ends ((ends_of_ok hrun).mpr ⟨hw', hcalm.evolves, hvacant into hinto⟩))
  | castByCopy into elem source =>
    obtain ⟨hinto, he, h, hl, hf⟩ := ha
    refine settle (keep_ends ((castByCopy_ends hw hl hf he).mono ?_ fun f w' h => fails_of_overflow h w'))
    rintro g w' ⟨hw', hcounts⟩
    exact ⟨hw', hcounts.calm.evolves, hcounts.vacant hinto⟩
  | take into p =>
    obtain ⟨hinto, h, hl, -, ht⟩ := ha
    unfold HandleStep.run
    rw [ends_bind]
    refine (takeValue_ends hw hl ht).mono ?_ fun f w' h _ => h.mono (misuses_of_mistakesTaking hl)
    rintro v w' ⟨hp, hw', hev, hvalues⟩ _
    refine ⟨hw'.putValue (hvalues into hinto) hp, hev.trans_calm ?_⟩
    exact calm_of_controlOf (List.append_nil _).symm quiet_nil fun _ => rfl
  | destroyTaken name =>
    obtain ⟨v, hv⟩ := ha
    obtain ⟨w', hrun, hw', hev⟩ := destroyNamed_ok hw hv
    unfold HandleStep.run
    rw [ends_bind]
    exact (ends_of_ok hrun).mpr fun _ => ⟨hw', hev⟩
  | dereference p =>
    obtain ⟨h, hl, hb⟩ := ha
    unfold HandleStep.run
    rw [ends_bind, ends_of_ok (readHandle_apply hl)]
    refine settle ((lookThrough_ends hw (hw.refersIn_of_live hl) hb).mono ?_ fun f w' h => fails_of_empty rfl hl h w')
    rintro - w' rfl
    exact ⟨hw, (Calm.refl w').evolves⟩
  | change p f =>
    obtain ⟨hf, h, hl, hb, hv⟩ := ha
    unfold HandleStep.run
    rw [ends_bind, ends_of_ok (readHandle_apply hl), ends_bind]
    refine settle ((changeThrough_ends hw (hw.refersIn_of_live hl) hb hv f).mono ?_
      fun f w' h => fails_of_empty rfl hl h w')
    rintro - w' ⟨s, v, -, hleads, rfl⟩
    exact ⟨hw.changeValue hf hleads.2.1 hleads.2.2, (calm_setStorage ..).evolves⟩
  | readItem p i =>
    obtain ⟨h, hl, hb⟩ := ha
    unfold HandleStep.run
    rw [ends_bind, ends_of_ok (readHandle_apply hl), ends_bind]
    refine settle ((readItem_ends hw (hw.refersIn_of_live hl) hb i).mono ?_ fun f w' h => fails_of_item rfl rfl hl h w')
    rintro - w' ⟨rfl, -⟩
    exact ⟨hw, (Calm.refl w').evolves⟩
  | writeItem p i n =>
    obtain ⟨h, hl, hb, -, -⟩ := ha
    unfold HandleStep.run
    rw [ends_bind, ends_of_ok (readHandle_apply hl), ends_bind]
    refine settle ((writeItem_ends hw (hw.refersIn_of_live hl) hb i n).mono ?_
      fun f w' h => fails_of_item rfl rfl hl h w')
    rintro - w' ⟨s, v, -, hleads, rfl⟩
    exact ⟨hw.changeValue (Value.keepsLink_setItem i n) hleads.2.1 hleads.2.2, (calm_setStorage ..).evolves⟩
  | call p m =>
    obtain ⟨h, face, hl, hface, -, -⟩ := ha
    have hv : h.elem.isView := by
      unfold Ty.isView
      rw [hface]
      rfl
    unfold HandleStep.run
    rw [ends_bind, ends_of_ok (readHandle_apply hl), ends_bind]
    refine (dereferenceView_ends (hw.refersIn_of_live hl) hv).mono ?_ fun f w' h _ => fails_of_empty rfl hl h w'
    rintro view w' ⟨rfl, s, t, -, ht, rfl⟩
    rw [ends_bind]
    refine (callThrough_ends hw ht m).mono ?_ ?_
    · rintro d u ⟨hu, hcalm⟩ _
      exact ⟨hu, hcalm.evolves⟩
    · rintro f u ⟨⟨thrown, rfl⟩, hu, hcalm⟩ _
      exact ⟨hu, hcalm.evolves⟩

/-! ### Whole programs -/

theorem AllEmpty.state (hs : AllEmpty slots) (s : SlotId) : ((World.ofSlots slots).controlOf s).state = .empty := by
  unfold controlOf
  cases hf : (World.ofSlots slots).slots.find? s with
  | none => rfl
  | some slot => exact hs.2 _ (Table.mem_of_find?_eq_some hf)

/-- Empty slots are in balance with a program that holds no handle. -/
theorem AllEmpty.sound (hs : AllEmpty slots) : (World.ofSlots slots).Sound 0 ∧ (World.ofSlots slots).Stable := by
  have hidle : ∀ s, ((World.ofSlots slots).controlOf s).state ≠ .occupied := by
    intro s
    rw [hs.state]
    decide
  have hdistinct : (World.ofSlots slots).slots.Distinct := hs.1
  have hnested : (World.ofSlots slots).nested = 0 := by
    rw [Multiset.eq_zero_iff_forall_notMem]
    intro h hh
    obtain ⟨s, hn⟩ := (mem_nested hdistinct).mp hh
    exact hidle s (nestedIn_eq_some_iff.mp hn).1
  refine ⟨⟨⟨hdistinct, ?_, ?_, ?_⟩, List.nodup_nil, List.nodup_nil, ?_⟩, fun s => .inl (hs.state s)⟩
  · exact fun s ho => absurd ho (hidle s)
  · intro h hh
    rw [hnested] at hh
    simp [roots, World.ofSlots] at hh
  · exact fun s ho => absurd ho (hidle s)
  · intro name v hv
    cases hv

theorem HandleStep.Completes.sound {st : HandleStep} (hc : st.Completes w w') (hw : w.Sound M) (ha : st.Admissible w)
    (hu : st.Undisturbed w w') : w'.Sound M ∧ w.Evolves w' := by
  have hstep := step_ends st hw ha
  rcases hc with ⟨a, hrun⟩ | ⟨t, hrun⟩
  · exact hstep.ok hrun hu
  · exact hstep.error hrun hu

/-- Every world of a handle program is sound, and no slot is left in the middle of an operation. -/
theorem Reachable.sound (hs : AllEmpty slots) (hr : Reachable slots w) : w.Sound 0 ∧ w.Stable := by
  induction hr with
  | start => exact hs.sound
  | step st _ ha hc hu ih =>
    obtain ⟨hw, hst⟩ := ih
    obtain ⟨hw', hev⟩ := hc.sound hw ha hu
    exact ⟨hw', hev.stable hst⟩

/-! ### A linked pair -/

def twoSlots : Table SlotId Slot := [(.numbered 0, ⟨.fresh 0 64, none⟩), (.numbered 1, ⟨.fresh 64 64, none⟩)]

/-- A shared handle to the shared node in a slot. -/
def nodeHandle (s : SlotId) : Handle := ⟨.shared, .ofKind .snode, some s, .object (some (.startOf s))⟩

def nodeSlot (count : UInt32) (address : Nat) (id : Int32) (next : Handle) : Slot :=
  ⟨⟨.occupied, count, some (.single .snode), address, 64⟩, some (.snode id next)⟩

/-- Two shared nodes.  The program holds a handle to each of them, and the second one stores another handle to the
first. -/
def linkedPair : World where
  slots := [(.numbered 0, nodeSlot 2 0 1 (.empty .shared (.ofKind .snode))),
    (.numbered 1, nodeSlot 1 64 2 (nodeHandle (.numbered 0)))]
  held := [(.named "tail", nodeHandle (.numbered 0)), (.named "head", nodeHandle (.numbered 1))]
  bag := []
  values := []
  trace := [.constructed (.numbered 0) (.single .snode), .constructed (.numbered 1) (.single .snode)]

/-- The linked pair when the handle to the head is gone: the storage of the head remembers its value. -/
def tailOnly : World where
  slots := [(.numbered 0, nodeSlot 1 0 1 (.empty .shared (.ofKind .snode))),
    (.numbered 1, ⟨⟨.empty, 0, none, 64, 64⟩, some (.snode 2 (nodeHandle (.numbered 0)))⟩)]
  held := [(.named "tail", nodeHandle (.numbered 0))]
  bag := []
  values := []
  trace := linkedPair.trace ++ [.destructed (.numbered 1) (.single .snode), .farewell "snode" 2]

theorem allEmpty_twoSlots : AllEmpty twoSlots := by
  refine ⟨by decide, ?_⟩
  intro e he
  simp only [twoSlots, List.mem_cons, List.not_mem_nil, or_false] at he
  rcases he with rfl | rfl <;> rfl

theorem HandleStep.undisturbed_of_trace {st : HandleStep} {w w' : World} (h : w'.trace = w.trace) :
    st.Undisturbed w w' := by
  intro s _ t ht
  unfold since at ht
  rw [h, List.drop_length] at ht
  exact absurd ht List.not_mem_nil

theorem HandleStep.undisturbed_of_assigned {st : HandleStep} {w w' : World} (h : st.assigned = []) :
    st.Undisturbed w w' := by
  intro s hs
  rw [h] at hs
  exact absurd hs List.not_mem_nil

/-- A program goes on by a step that assigns to no handle. -/
theorem Reachable.advance {slots : Table SlotId Slot} {w w' : World} {a : Answer} (st : HandleStep)
    (hr : Reachable slots w) (ha : st.Admissible w) (hrun : st.run w = .ok a w') (hs : st.assigned = []) :
    Reachable slots w' :=
  .step st hr ha (.returned a hrun) (HandleStep.undisturbed_of_assigned hs)

/-- A program goes on by a step, perhaps an assignment, in which nothing is torn down. -/
theorem Reachable.assign {slots : Table SlotId Slot} {w w' : World} {a : Answer} (st : HandleStep)
    (hr : Reachable slots w) (ha : st.Admissible w) (hrun : st.run w = .ok a w') (ht : w'.trace = w.trace) :
    Reachable slots w' :=
  .step st hr ha (.returned a hrun) (HandleStep.undisturbed_of_trace ht)

theorem linkedPair_reachable : Reachable twoSlots linkedPair := by
  have htail : Reachable twoSlots _ :=
    .advance (.make (.named "tail") (.numbered 0) .shared (.ofKind .snode) (.arguments (Seed.ofSharedNode 1)) false)
      .start ⟨⟨rfl, rfl⟩, rfl, rfl, rfl, rfl, rfl⟩ rfl rfl
  have hhead : Reachable twoSlots _ :=
    .advance (.make (.named "head") (.numbered 1) .shared (.ofKind .snode) (.arguments (Seed.ofSharedNode 2)) false)
      htail ⟨⟨rfl, rfl⟩, rfl, rfl, rfl, rfl, rfl⟩ rfl rfl
  exact .assign (.assignByCopy (.inside (.numbered 1)) (.named "tail")) hhead
    ⟨_, _, rfl, rfl, rfl, rfl, rfl⟩ rfl rfl

theorem destroy_head : (HandleStep.destroy (.named "head")).Admissible linkedPair ∧
    (HandleStep.destroy (.named "head")).Completes linkedPair tailOnly ∧
    (HandleStep.destroy (.named "head")).Undisturbed linkedPair tailOnly :=
  ⟨⟨rfl, _, rfl⟩, .returned .done rfl, HandleStep.undisturbed_of_assigned rfl⟩

end SlotHandles
