import SlotHandles.Proofs.Renewal

/-!
# The outcomes of a factory

A factory looks at three things, one after the other: whether the value fits the slot, whether the slot is empty, and
whether the constructor of the value throws.  Each of the four outcomes comes about under its own condition and no
other (`factory_outcomes`).  A refused value leaves the world as it is, and a constructor that throws leaves no more
than its announcements: what it had built is destroyed again, and the slot is as empty as before.

The constructor may throw and may try to place other values in the slot, but calls no control block (`Restrained`).
-/

namespace SlotHandles

open World

variable {w w' : World} {s : SlotId} {v : Value} {o : Origin} {elem : Ty} {family : Family}

/-! ### What is built and destroyed on the way -/

/-- The part that the event reports as built, if it reports one. -/
def Event.begun? : Event → Option Int32
  | .made n | .copied n | .moved n => some n
  | _ => none

/-- The event reports that a value or one of its parts is destroyed. -/
def Event.isEnding : Event → Bool
  | .gone _ | .farewell .. | .probeDestroyed .. | .destructed .. => true
  | _ => false

/-- Every part that was built is destroyed again, the last one first, and nothing else is destroyed. -/
def Unwound (es : List Event) : Prop := es.filter Event.isEnding = (es.filterMap Event.begun?).reverse.map .gone

/-- Nothing is announced but the building of parts. -/
def Begins (es : List Event) : Prop := ∀ e ∈ es, e.begun?.isSome

/-- Nothing is destroyed. -/
def Lasting (es : List Event) : Prop := es.filter Event.isEnding = []

/-- A construction that throws destroys the parts it has built, and one that does not destroys nothing. -/
def Construction.Tidy (k : Construction) : Prop :=
  match k.thrown with
  | some _ => Unwound k.events
  | none => Lasting k.events

/-- The answers to attempts report neither a beginning nor an ending. -/
theorem Construction.Tidy.amid {k : Construction} (h : k.Tidy) (answers : List ErrorCode) : (k.amid answers).Tidy := by
  have hends : (answers.map Event.refused).filter Event.isEnding = [] := by
    rw [List.filter_map]
    exact congrArg _ (List.filter_eq_nil_iff.mpr fun _ _ => Bool.false_ne_true)
  have hbegins : (answers.map Event.refused).filterMap Event.begun? = [] := by
    rw [List.filterMap_map]
    exact List.filterMap_eq_nil_iff.mpr fun _ _ => rfl
  unfold Tidy Unwound Lasting Construction.amid at *
  cases ht : k.thrown with
  | some t =>
    rw [ht] at h
    dsimp only at h ⊢
    rw [List.filter_append, List.filterMap_append, hends, hbegins, List.append_nil, List.append_nil, h]
  | none =>
    rw [ht] at h
    dsimp only at h ⊢
    rw [List.filter_append, hends, h, List.append_nil]

theorem Begins.lasting {es : List Event} (h : Begins es) : Lasting es := by
  unfold Lasting
  rw [List.filter_eq_nil_iff]
  intro e he
  have hb := h e he
  cases e <;> first | exact Bool.false_ne_true | cases hb

theorem begins_nil : Begins [] := fun _ he => absurd he List.not_mem_nil

theorem begins_map {α : Type} {f : α → Event} (hf : ∀ a, (f a).begun?.isSome) (l : List α) : Begins (l.map f) := by
  intro e he
  obtain ⟨a, -, rfl⟩ := List.mem_map.mp he
  exact hf a

theorem begins_arrival (v : Value) : Begins v.arrival := by
  cases v with
  | collection item items =>
    cases item with
    | tracked => exact begins_map (fun _ => rfl) items
    | int | constInt | u8 => exact begins_nil
  | tracked n | square n | derived n _ | deep n _ | picky n _ => exact begins_map (f := .made) (fun _ => rfl) [n]
  | _ => exact begins_nil

theorem begins_copyTransfer (v : Value) : Begins v.copyTransfer.events := by
  cases v with
  | collection item items =>
    cases item with
    | tracked => exact begins_map (fun _ => rfl) items
    | int | constInt | u8 => exact begins_nil
  | tracked n | square n | derived n _ | deep n _ | picky n _ => exact begins_map (f := .copied) (fun _ => rfl) [n]
  | _ => exact begins_nil

theorem begins_moveTransfer (v : Value) : Begins v.moveTransfer.events := by
  cases v with
  | collection item items =>
    cases item with
    | tracked => exact begins_map (fun _ => rfl) items
    | int | constInt | u8 => exact begins_nil
  | tracked n | square n | derived n _ | deep n _ => exact begins_map (f := .moved) (fun _ => rfl) [n]
  | picky n _ => exact begins_map (f := .copied) (fun _ => rfl) [n]
  | _ => exact begins_nil

theorem Value.tidy_construction (c : ControlBlock) (v : Value) : (v.construction c).Tidy := by
  have harrival := (begins_arrival v).lasting
  cases hr : v.refusal? with
  | some refusal =>
    obtain ⟨t, n, rfl⟩ : ∃ t n, v = .picky t n := by
      cases v <;> first | exact ⟨_, _, rfl⟩ | cases hr
    unfold construction Construction.Tidy
    rw [hr]
    rfl
  | none =>
    cases v with
    | probe id onBuild onDestroy =>
      unfold construction Construction.Tidy
      dsimp only [refusal?]
      split <;> rfl
    | _ =>
      unfold construction Construction.Tidy
      rw [hr]
      exact harrival

/-- A copy that is refused has copied one part. -/
theorem Transfer.tidy_construction {t : Transfer} (hl : Lasting t.events)
    (hr : ∀ refusal, t.value.copyRefusal? = some refusal → Unwound (t.events ++ t.value.unwinding)) (byCopy : Bool) :
    (t.construction byCopy).Tidy := by
  unfold construction Construction.Tidy
  cases byCopy with
  | false => exact hl
  | true =>
    rw [if_pos rfl]
    cases h : t.value.copyRefusal? with
    | some refusal => exact hr refusal h
    | none => exact hl

theorem Origin.tidy_construction (o : Origin) (c : ControlBlock) : (o.construction c).Tidy := by
  cases o with
  | arguments seed => exact Value.tidy_construction c _
  | moved seed =>
    refine Transfer.tidy_construction (begins_moveTransfer _).lasting (fun refusal h => ?_) _
    rw [value_moveTransfer] at h ⊢
    cases hv : seed.value with
    | picky t n => rfl
    | _ =>
      rw [hv] at h
      cases h
  | copied seed =>
    refine Transfer.tidy_construction (begins_copyTransfer _).lasting (fun refusal h => ?_) _
    change seed.value.copyRefusal? = some refusal at h
    cases hv : seed.value with
    | picky t n => rfl
    | _ =>
      rw [hv] at h
      cases h

/-! ### The three conditions -/

/-- A value of the type fits the storage of the slot, whatever the slot's state. -/
def World.HasRoomFor (w : World) (s : SlotId) (t : StoredType) : Prop :=
  t.size ≤ (w.controlOf s).capacity ∧ t.alignment ∣ (w.controlOf s).address

theorem World.hasRoom_iff (t : StoredType) :
    (w.controlOf s).hasRoom t.layout.size t.layout.alignment ↔ w.HasRoomFor s t := by
  unfold ControlBlock.hasRoom HasRoomFor
  rw [Bool.and_eq_true, decide_eq_true_iff, decide_eq_true_iff, Nat.dvd_iff_mod_eq_zero]
  rfl

/-- The constructor throws in the claimed slot what it would throw without its attempts. -/
theorem Origin.throws_iff (hd : w.slots.Distinct) (hx : (w.slots.find? s).isSome) (hb : Restrained o.onBuild)
    (t : Thrown) :
    o.Throws w s t ↔
      (o.withoutAttempts.construction { w.controlOf s with state := .constructing }).thrown = some t := by
  have hclaimed := controlOf_setControl_self (w := w) { w.controlOf s with state := .constructing } hx
  have hbuild := build_apply (s := s) (w := w.setControl s { w.controlOf s with state := .constructing })
    (distinct_setControl hd s _) (by rw [hclaimed]; exact Occupancy.noConfusion) hb
  rw [hclaimed] at hbuild
  unfold Throws
  rw [hbuild]
  unfold Construction.result Construction.amid
  generalize (o.withoutAttempts.construction { w.controlOf s with state := .constructing }).thrown = thrown
  cases thrown with
  | some t' => simp
  | none => simp

/-- The three conditions tell what comes of placing the value. -/
theorem Origin.outcome_cases (hd : w.slots.Distinct) (hx : (w.slots.find? s).isSome) (hb : Restrained o.onBuild) :
    (¬ w.HasRoomFor s o.type ∧ o.outcome (w.controlOf s) = .refused .capacityExceeded) ∨
    (w.HasRoomFor s o.type ∧ (w.controlOf s).state ≠ .empty ∧ o.outcome (w.controlOf s) = .refused .slotOccupied) ∨
    (w.HasRoomFor s o.type ∧ (w.controlOf s).state = .empty ∧
      ∃ t es, o.Throws w s t ∧ Quiet es ∧ Unwound es ∧ o.outcome (w.controlOf s) = .threw t es) ∨
    (w.HasRoomFor s o.type ∧ (w.controlOf s).state = .empty ∧
      ∃ es, (∀ t, ¬ o.Throws w s t) ∧ Quiet es ∧ Lasting es ∧ o.outcome (w.controlOf s) = .built es) := by
  have hthrows := throws_iff hd hx hb
  have hquiet := quiet_construction o.withoutAttempts { w.controlOf s with state := .constructing }
  have htidy := (tidy_construction o.withoutAttempts { w.controlOf s with state := .constructing }).amid
    ((w.controlOf s).refusals o.onBuild)
  have hanswers : Quiet (((w.controlOf s).refusals o.onBuild).map Event.refused) := quiet_map (fun _ _ => rfl) _
  by_cases hroom : w.HasRoomFor s o.type
  case neg =>
    have hfull : (w.controlOf s).hasRoom o.type.layout.size o.type.layout.alignment = false := by
      rw [← Bool.not_eq_true, hasRoom_iff]
      exact hroom
    refine .inl ⟨hroom, ?_⟩
    unfold outcome placement
    rw [type_withoutAttempts, if_pos hfull]
    rfl
  have hfits : ¬ (w.controlOf s).hasRoom o.type.layout.size o.type.layout.alignment = false := by
    rw [Bool.not_eq_false, hasRoom_iff]
    exact hroom
  unfold outcome placement
  rw [type_withoutAttempts, if_neg hfits]
  by_cases he : (w.controlOf s).state = .empty
  case neg =>
    rw [if_neg he]
    exact .inr (.inl ⟨hroom, he, rfl⟩)
  rw [if_pos he]
  generalize o.withoutAttempts.construction { w.controlOf s with state := .constructing } = k at *
  unfold Construction.Tidy Construction.amid at htidy
  cases ht : k.thrown with
  | some t =>
    rw [ht] at htidy
    refine .inr (.inr (.inl ⟨hroom, he, t, _, (hthrows t).mpr ht, hquiet.append hanswers, htidy, rfl⟩))
  | none =>
    rw [ht] at htidy
    refine .inr (.inr (.inr ⟨hroom, he, _, fun t h => ?_, hquiet.append hanswers, htidy, rfl⟩))
    rw [hthrows, ht] at h
    cases h

/-! ### The four outcomes -/

/-- A value has been built in the slot, with one reference.  Nothing else has changed, and nothing was destroyed. -/
structure World.Gains (w : World) (s : SlotId) (v : Value) (w' : World) : Prop where
  block : w'.controlOf s = { w.controlOf s with state := .occupied, count := 1, type := some v.type }
  stored : w'.storageOf s = some v
  elsewhere : ∀ t, t ≠ s → w'.slots.find? t = w.slots.find? t
  outside : w'.held = w.held ∧ w'.bag = w.bag ∧ w'.values = w.values
  announced : ∃ es, Quiet es ∧ Lasting es ∧ w'.trace = w.trace ++ es ++ [.constructed s v.type]

theorem World.gains_built (hx : (w.slots.find? s).isSome) (v : Value) {es : List Event} (hq : Quiet es)
    (hl : Lasting es) : w.Gains s v (w.built s v es) where
  block := controlOf_built hx v es
  stored := storageOf_built hx v es
  elsewhere t ht := (find?_built w s t v es).trans (if_neg ht)
  outside := ⟨rfl, rfl, rfl⟩
  announced := ⟨es, hq, hl, rfl⟩

/-- **Factories.**  A factory refuses a value that does not fit, whatever the state of the slot, and then a slot that is
not empty; otherwise it hands on what the constructor throws, or returns the handle of the value it has built.  A
refusal leaves the world as it is, and an exception only what was announced on the way. -/
theorem factory_outcomes (family : Family) (hd : w.slots.Distinct) (hx : (w.slots.find? s).isSome)
    (ho : elem.owns o.type.ty) (hb : Restrained o.onBuild) :
    ((∃ w', make family elem s o w = .ok (.error .capacityExceeded) w') ↔ ¬ w.HasRoomFor s o.type) ∧
    ((∃ w', make family elem s o w = .ok (.error .slotOccupied) w') ↔
      w.HasRoomFor s o.type ∧ (w.controlOf s).state ≠ .empty) ∧
    (∀ t, (∃ w', make family elem s o w = .error (.exception t) w') ↔
      w.HasRoomFor s o.type ∧ (w.controlOf s).state = .empty ∧ o.Throws w s t) ∧
    ((∃ made w', make family elem s o w = .ok (.ok made) w') ↔
      w.HasRoomFor s o.type ∧ (w.controlOf s).state = .empty ∧ ∀ t, ¬ o.Throws w s t) ∧
    Ends (make family elem s o) w
      (fun r w' => match r with
        | .error e => (e = .capacityExceeded ∨ e = .slotOccupied) ∧ w' = w
        | .ok made => w.Gains s o.seed.value w' ∧ made.handle = madeHandle family elem s o ∧ made.handle.RefersIn w')
      (fun f w' => (∃ t, f = .exception t) ∧ w'.Takes s o.type ∧ ∃ es, Quiet es ∧ Unwound es ∧ w' = w.log es) := by
  have hmake := make_apply family elem hd hx hb
  have hcodes : ErrorCode.capacityExceeded ≠ .slotOccupied := by decide
  obtain ⟨hroom, hp⟩ | ⟨hroom, he, hp⟩ | ⟨hroom, he, t, es, ht, hq, hu, hp⟩ | ⟨hroom, he, es, ht, hq, hl, hp⟩ :=
    Origin.outcome_cases hd hx hb
  · rw [hp] at hmake
    refine ⟨?_, ?_, ?_, ?_, (ends_of_ok hmake).mpr ⟨.inl rfl, rfl⟩⟩ <;> simp [hmake, hroom, hcodes]
  · rw [hp] at hmake
    refine ⟨?_, ?_, ?_, ?_, (ends_of_ok hmake).mpr ⟨.inr rfl, rfl⟩⟩ <;> simp [hmake, hroom, he, hcodes.symm]
  · rw [hp] at hmake
    have hsame : ∀ t', o.Throws w s t' ↔ t = t' := by
      intro t'
      rw [Origin.throws_iff hd hx hb] at ht ⊢
      rw [ht, Option.some_inj]
    have htakes : w.Takes s o.type := ⟨he, (hasRoom_iff o.type).mpr hroom⟩
    refine ⟨?_, ?_, ?_, ?_, (ends_of_error hmake).mpr ⟨⟨t, rfl⟩, htakes, es, hq, hu, rfl⟩⟩ <;>
      simp [hmake, hroom, he, hsame]
  · rw [hp] at hmake
    have hrefers : (madeHandle family elem s o).RefersIn (w.built s o.seed.value es) :=
      (Handle.refersIn_of_slot_eq_some rfl).mpr ⟨o.type, typeIn_built hx o.seed.value es, Referent.denotes_toValue ho s⟩
    refine ⟨?_, ?_, ?_, ?_, (ends_of_ok hmake).mpr ⟨gains_built hx o.seed.value hq hl, rfl, hrefers⟩⟩ <;>
      simp [hmake, hroom, he, ht]

/-- A copy that is refused when its first part has been copied. -/
def refusedCopy : Origin := .copied (Seed.plain (.picky 5 7))

theorem factory_outcomes_refusedCopy : (ofSlots twoSlots).slots.Distinct ∧
    ((ofSlots twoSlots).slots.find? (.numbered 0)).isSome ∧ (Ty.ofKind .picky).owns refusedCopy.type.ty ∧
    Restrained refusedCopy.onBuild ∧
    make .shared (.ofKind .picky) (.numbered 0) refusedCopy (ofSlots twoSlots) =
      .error (.exception (.runtimeError "copy refused")) ((ofSlots twoSlots).log [.copied 5, .gone 5]) ∧
    (ofSlots twoSlots).HasRoomFor (.numbered 0) refusedCopy.type ∧
    refusedCopy.Throws (ofSlots twoSlots) (.numbered 0) (.runtimeError "copy refused") := by
  have hd : (ofSlots twoSlots).slots.Distinct := allEmpty_twoSlots.1
  have hb : Restrained refusedCopy.onBuild := fun a ha => absurd ha List.not_mem_nil
  obtain ⟨-, -, hthrows, -, -⟩ := factory_outcomes .shared hd (s := .numbered 0) rfl
    (show (Ty.ofKind .picky).owns refusedCopy.type.ty from rfl) hb
  obtain ⟨hroom, -, ht⟩ := (hthrows (.runtimeError "copy refused")).mp ⟨_, rfl⟩
  exact ⟨hd, rfl, rfl, hb, rfl, hroom, ht⟩

end SlotHandles
