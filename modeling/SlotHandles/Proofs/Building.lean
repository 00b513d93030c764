import SlotHandles.Proofs.Soundness

/-!
# Building values

A handle is made together with its value, or there is a reason why not: the value does not fit, the slot is taken, or
its constructor throws and the slot is given back.  Either way a sound world is left, and the construction is in the
trace exactly if there is a new handle.
-/

namespace SlotHandles

open World

variable {w w' : World} {s : SlotId} {v : Value} {h : Handle} {M : Multiset Handle} {o : Origin} {elem : Ty}
  {family : Family}

/-! ### New values -/

theorem Seed.IsNew.empty {seed : Seed} (hn : seed.IsNew) {g : Handle} (hg : seed.value.next? = some g) :
    seed.type.link? = some (g.family, g.elem) ∧ g = .empty g.family g.elem := by
  have hb : (Value.blank seed.type).next? = some g := hn.2.symm.trans hg
  generalize seed.type = t at hb ⊢
  cases t with
  | collection item n => cases hb
  | single k => cases k <;> cases hb <;> exact ⟨rfl, rfl⟩

theorem Seed.IsNew.isProper {seed : Seed} (hn : seed.IsNew) : seed.value.IsProper :=
  ⟨hn.1, fun _ hg => (hn.empty hg).1⟩

theorem Seed.isNew_plain {v : Value} (h : v.next? = none) (hp : v.isPassive) : (Seed.plain v h).IsNew := by
  refine ⟨hp, ?_⟩
  change v.next? = (Value.blank v.type).next?
  cases v with
  | node | snode => cases h
  | _ => rfl

/-- The values that constructors build from arguments are new, unless they call control blocks. -/
theorem Seed.isNew_of_ofArguments? {t : StoredType} {args : List Datum} {seed : Seed}
    (h : Seed.ofArguments? t args = some seed) (hp : seed.value.isPassive) : seed.IsNew := by
  unfold ofArguments? at h
  split at h
  case h_9 => cases h
  all_goals simp only [Option.bind_eq_bind, Option.bind_eq_some_iff, Option.pure_def, Option.some.injEq] at h
  case h_1 =>
    obtain ⟨items, -, h⟩ := h
    split at h
    · cases h
      exact isNew_plain rfl hp
    · cases h
  -- the types with one number: all but the two nodes store no handle
  case h_8 =>
    obtain ⟨n, -, h⟩ := h
    split at h
    case h_11 =>
      obtain ⟨a, -, h⟩ := Option.bind_eq_some_iff.mp h
      cases h
      exact isNew_plain rfl hp
    case h_15 | h_16 =>
      cases h
      exact ⟨rfl, rfl⟩
    case h_18 => cases h
    all_goals
      cases h
      exact isNew_plain rfl hp
  case h_2 | h_7 =>
    obtain ⟨a, -, rfl⟩ := h
    exact isNew_plain rfl hp
  all_goals
    obtain ⟨a, -, b, -, rfl⟩ := h
    exact isNew_plain rfl hp

theorem World.Sound.addNew {seed : Seed} (hw : w.Sound M) (hn : seed.IsNew) :
    w.Sound ((seed.value.next?.toList : Multiset Handle) + M) := by
  cases hg : seed.value.next? with
  | none => simpa using hw
  | some g =>
    obtain ⟨-, he⟩ := hn.empty hg
    have hr : g.RefersIn w := he ▸ Handle.refersIn_empty w g.family g.elem
    simpa using (Sound.cons_iff_of_empty (seed.unlinked g hg) hr).mpr hw

/-! ### Constructors -/

/-- The action only announces something, whether it returns or throws. -/
def Announces {α : Type} (a : Act α) (w : World) (good : α → Prop) : Prop :=
  Ends a w (fun x w' => good x ∧ ∃ es, Quiet es ∧ w' = w.log es)
    (fun f w' => (∃ t, f = .exception t) ∧ ∃ es, Quiet es ∧ w' = w.log es)

theorem log_nil (w : World) : w.log [] = w := by
  unfold World.log
  rw [List.append_nil]

theorem announces_pure {α : Type} {x : α} {good : α → Prop} (hx : good x) : Announces (pure x) w good :=
  ⟨hx, [], quiet_nil, (log_nil w).symm⟩

theorem announces_raise {α : Type} (t : Thrown) (good : α → Prop) : Announces (raise t : Act α) w good :=
  ⟨⟨t, rfl⟩, [], quiet_nil, (log_nil w).symm⟩

theorem announces_recordAll_bind {α : Type} {f : Unit → Act α} {es : List Event} {good : α → Prop} (he : Quiet es)
    (hf : Announces (f ()) (w.log es) good) : Announces (recordAll es >>= f) w good := by
  unfold Announces
  rw [ends_bind, ends_of_ok (recordAll_apply ..)]
  refine hf.mono ?_ ?_
  · rintro x _ ⟨hx, es', he', rfl⟩
    exact ⟨hx, es ++ es', he.append he', log_log ..⟩
  · rintro f _ ⟨ht, es', he', rfl⟩
    exact ⟨ht, es ++ es', he.append he', log_log ..⟩

theorem announces_bind {α β : Type} {a : Act α} {f : α → Act β} {good : α → Prop} {good' : β → Prop}
    (ha : Announces a w good) (hf : ∀ x es, good x → Announces (f x) (w.log es) good') :
    Announces (a >>= f) w good' := by
  unfold Announces
  rw [ends_bind]
  refine Ends.mono ha ?_ fun _ _ h => h
  rintro x _ ⟨hx, es, he, rfl⟩
  refine (hf x es hx).mono ?_ ?_
  · rintro y _ ⟨hy, es', he', rfl⟩
    exact ⟨hy, es ++ es', he.append he', log_log ..⟩
  · rintro f _ ⟨ht, es', he', rfl⟩
    exact ⟨ht, es ++ es', he.append he', log_log ..⟩

/-- What a passive probe does while it is built is to throw, if anything. -/
theorem announces_raises (td : SlotId → Act Unit) (id : Int32) (s : SlotId) {actions : List Action}
    (ha : actions.all (· = .raise)) : Announces (actions.forM (performWith td id s)) w fun _ => True := by
  cases actions with
  | nil => exact announces_pure trivial
  | cons a rest =>
    simp only [List.all_cons, Bool.and_eq_true, decide_eq_true_eq] at ha
    obtain ⟨rfl, -⟩ := ha
    exact announces_raise (w := w) _ fun _ : Unit => True

theorem buildFresh_announces (s : SlotId) (hp : v.isPassive) : Announces (buildFresh s v) w fun _ => True := by
  unfold buildFresh
  refine announces_recordAll_bind (quiet_arrival v) ?_
  cases v.refusal? with
  | some refusal => exact announces_recordAll_bind (quiet_unwinding v) (announces_raise _ _)
  | none =>
    cases v with
    | probe id onBuild onDestroy =>
      simp only [Value.isPassive, Bool.and_eq_true] at hp
      have hq : Quiet [.probeBuilt id ((w.log (Value.probe id onBuild onDestroy).arrival).controlOf s).summary] :=
        fun _ => rfl
      unfold Announces
      dsimp only
      rw [ends_bind, ends_of_ok (controlNow_apply ..)]
      exact announces_recordAll_bind hq (announces_raises tearDown id s hp.1)
    | _ => exact announces_pure trivial

theorem shareNext_apply (hv : ∀ g, v.next? = some g → g.slot = none) (w : World) : shareNext v w = .ok () w := by
  unfold shareNext
  cases hn : v.next? with
  | none => rfl
  | some g =>
    dsimp only
    rw [hv g hn]
    cases g.family <;> rfl

theorem quiet_copyTransfer (v : Value) : Quiet v.copyTransfer.events := by
  cases v with
  | collection item items =>
    cases item with
    | tracked => exact quiet_map (fun _ _ => rfl) items
    | int | constInt | u8 => exact quiet_nil
  | _ => exact fun _ => rfl

theorem quiet_moveTransfer (v : Value) : Quiet v.moveTransfer.events := by
  cases v with
  | collection item items =>
    cases item with
    | tracked => exact quiet_map (fun _ _ => rfl) items
    | int | constInt | u8 => exact quiet_nil
  | _ => exact fun _ => rfl

theorem value_moveTransfer (v : Value) : v.moveTransfer.value = v := by
  cases v with
  | collection item items => cases item <;> rfl
  | _ => rfl

theorem transfer_announces {t : Transfer} (he : Quiet t.events) (hv : ∀ g, t.value.next? = some g → g.slot = none)
    (byCopy : Bool) : Announces (transfer t byCopy) w fun _ => True := by
  unfold transfer
  refine announces_recordAll_bind he ?_
  cases byCopy with
  | false => exact announces_pure trivial
  | true =>
    rw [if_pos rfl]
    cases t.value.copyRefusal? with
    | some refusal => exact announces_recordAll_bind (quiet_unwinding _) (announces_raise _ _)
    | none =>
      have hs := shareNext_apply hv (w.log t.events)
      unfold Announces
      rw [ends_of_ok hs]
      exact ⟨trivial, [], quiet_nil, (log_nil _).symm⟩

theorem build_announces (s : SlotId) (hn : o.seed.IsNew) : Announces (build s o) w fun r => r.1 = o.seed.value := by
  cases o with
  | arguments seed =>
    refine announces_bind (buildFresh_announces s hn.1) fun _ es _ => ?_
    exact announces_pure (w := w.log es) rfl
  | moved seed =>
    have hv : ∀ g, seed.value.moveTransfer.value.next? = some g → g.slot = none := by
      rw [value_moveTransfer]
      exact seed.unlinked
    refine announces_bind ?_ fun t es (ht : t.value = seed.value) => announces_pure (w := w.log es) ht
    refine announces_bind (transfer_announces (quiet_moveTransfer _) hv _) fun _ es _ => ?_
    exact announces_pure (w := w.log es) (value_moveTransfer _)
  | copied seed =>
    refine announces_bind ?_ fun t es (ht : t.value = seed.value) => announces_pure (w := w.log es) ht
    refine announces_bind (transfer_announces (quiet_copyTransfer _) seed.unlinked _) fun _ es _ => ?_
    exact announces_pure (w := w.log es) rfl

/-! ### Slots -/

/-- A slot is claimed exactly if the value fits and the slot is empty. -/
theorem claim_apply (hd : w.slots.Distinct) (s : SlotId) (l : Layout) :
    claim s l w =
      if (w.controlOf s).hasRoom l.size l.alignment = false then .ok (.error .capacityExceeded) w
      else if (w.controlOf s).state = .empty then
        .ok (.ok ()) (w.setControl s { w.controlOf s with state := .constructing })
      else .ok (.error .slotOccupied) w := by
  unfold claim
  rw [bind_of_ok (controlNow_apply ..)]
  cases hroom : (w.controlOf s).hasRoom l.size l.alignment with
  | false => rfl
  | true =>
    rw [if_neg (by simp), if_neg (by simp)]
    by_cases he : (w.controlOf s).state = .empty
    · have hrun := onControl_ok ((ControlBlock.tryClaim_apply (w.controlOf s)).trans (if_pos he))
      rw [bind_of_ok hrun, if_pos he]
      rfl
    · have hrun := onControl_ok ((ControlBlock.tryClaim_apply (w.controlOf s)).trans (if_neg he))
      rw [setControl_controlOf hd] at hrun
      rw [bind_of_ok hrun, if_neg he]
      rfl

/-- The world in which a value has been built in an empty slot; `es` is what its construction announced. -/
def World.built (w : World) (s : SlotId) (v : Value) (es : List Event) : World :=
  (((w.log es).setStorage s v).setControl s
    { w.controlOf s with state := .occupied, count := 1, type := some v.type }).log [.constructed s v.type]

theorem publish_apply (hx : (w.slots.find? s).isSome) (v : Value) (es : List Event) :
    publish s v ((w.setControl s { w.controlOf s with state := .constructing }).log es) = .ok () (w.built s v es) := by
  have hself : (((w.setControl s { w.controlOf s with state := .constructing }).log es).setStorage s v).controlOf s =
      { w.controlOf s with state := .constructing } := by
    rw [controlOf_setStorage, controlOf_log, controlOf_setControl_self _ hx]
  have hrun : onControl s (ControlBlock.publish v.type)
      (((w.setControl s { w.controlOf s with state := .constructing }).log es).setStorage s v) =
      .ok () (((w.log es).setStorage s v).setControl s
        { w.controlOf s with state := .occupied, count := 1, type := some v.type }) := by
    have hpub := onControl_ok (s := s) (w := ((w.setControl s { w.controlOf s with state := .constructing }).log
      es).setStorage s v) ((ControlBlock.publish_apply v.type _).trans (if_pos (by rw [hself])))
    rw [hpub, hself]
    have hcomm : ((w.setControl s { w.controlOf s with state := .constructing }).log es).setStorage s v =
        ((w.log es).setStorage s v).setControl s { w.controlOf s with state := .constructing } :=
      (setControl_setStorage (w.log es) s s v _).symm
    rw [hcomm, setControl_setControl]
  unfold publish
  rw [bind_of_ok (writeObject_apply ..)]
  change (onControl s (ControlBlock.publish v.type) >>= fun _ => record (.constructed s v.type))
    (((w.setControl s { w.controlOf s with state := .constructing }).log es).setStorage s v) = _
  rw [bind_of_ok hrun]
  rfl

theorem abandon_apply (hd : w.slots.Distinct) (hx : (w.slots.find? s).isSome) (he : (w.controlOf s).state = .empty)
    (es : List Event) :
    onControl s ControlBlock.abandon ((w.setControl s { w.controlOf s with state := .constructing }).log es) =
      .ok () (w.log es) := by
  have hself : ((w.setControl s { w.controlOf s with state := .constructing }).log es).controlOf s =
      { w.controlOf s with state := .constructing } := by
    rw [controlOf_log, controlOf_setControl_self _ hx]
  have hrun := onControl_ok (s := s) (w := (w.setControl s { w.controlOf s with state := .constructing }).log es)
    ((ControlBlock.abandon_apply _).trans (if_pos (by rw [hself])))
  rw [hrun, hself]
  have hback : ({ w.controlOf s with state := .empty } : ControlBlock) = w.controlOf s := by
    rw [← he]
  have hcomm : ∀ c : ControlBlock,
      ((w.setControl s { w.controlOf s with state := .constructing }).log es).setControl s c =
        (w.setControl s c).log es := by
    intro c
    rw [← setControl_setControl w s { w.controlOf s with state := .constructing } c]
    rfl
  rw [hcomm, hback, setControl_controlOf hd]

/-- The slot takes a value of the type: it is empty and has room for it. -/
def World.Takes (w : World) (s : SlotId) (t : StoredType) : Prop :=
  (w.controlOf s).state = .empty ∧ (w.controlOf s).hasRoom t.size t.alignment

/-- The constructor throws when it builds the value in the slot. -/
def Origin.Throws (o : Origin) (w : World) (s : SlotId) (t : Thrown) : Prop :=
  ∃ w', build s o (w.setControl s { w.controlOf s with state := .constructing }) = .error (.exception t) w'

/-- A value is placed in a slot that takes it, unless its constructor throws.  Otherwise nothing happens. -/
theorem placeValue_ends (hd : w.slots.Distinct) (hx : (w.slots.find? s).isSome) (hn : o.seed.IsNew) :
    Ends (placeValue s o) w
      (fun r w' => match r with
        | .error _ => w' = w ∧ ¬ w.Takes s o.type
        | .ok _ => w.Takes s o.type ∧ ∃ es, Quiet es ∧ w' = w.built s o.seed.value es)
      (fun f w' => (∃ t, f = .exception t ∧ o.Throws w s t) ∧ ∃ es, Quiet es ∧ w' = w.log es) := by
  unfold placeValue
  rw [ends_bind]
  have hclaim := claim_apply hd s o.type.layout
  -- the value has to fit, then the slot has to be empty, and then its constructor must not throw
  by_cases hroom : (w.controlOf s).hasRoom o.type.layout.size o.type.layout.alignment = false
  · rw [if_pos hroom] at hclaim
    rw [ends_of_ok hclaim]
    exact ⟨rfl, fun ht => Bool.noConfusion (hroom.symm.trans ht.2)⟩
  rw [if_neg hroom] at hclaim
  by_cases he : (w.controlOf s).state = .empty
  · rw [if_pos he] at hclaim
    rw [ends_of_ok hclaim]
    generalize hw₁ : w.setControl s { w.controlOf s with state := .constructing } = w₁
    have hbuild : Announces (build s o) w₁ fun r => r.1 = o.seed.value := build_announces s hn
    dsimp only
    rw [ends_bind]
    unfold Announces Ends at hbuild
    unfold Ends givingBack
    cases hrun : build s o w₁ with
    | ok r w' =>
      rw [hrun] at hbuild
      obtain ⟨hr, es, hes, rfl⟩ := hbuild
      dsimp only
      have hpub : publish s r.1 (w₁.log es) = .ok () (w.built s o.seed.value es) := by
        rw [← hw₁, hr]
        exact publish_apply hx o.seed.value es
      rw [bind_of_ok hpub]
      exact ⟨⟨he, (Bool.not_eq_false _).mp hroom⟩, es, hes, rfl⟩
    | error f w' =>
      rw [hrun] at hbuild
      obtain ⟨⟨t, rfl⟩, es, hes, rfl⟩ := hbuild
      have hthrows : o.Throws w s t := ⟨_, (congrArg (build s o) hw₁).trans hrun⟩
      dsimp only
      rw [← hw₁, bind_of_ok (abandon_apply hd hx he es)]
      exact ⟨⟨t, rfl, hthrows⟩, es, hes, rfl⟩
  · rw [if_neg he] at hclaim
    rw [ends_of_ok hclaim]
    exact ⟨rfl, fun ht => he ht.1⟩

theorem controlOf_built (hx : (w.slots.find? s).isSome) (v : Value) (es : List Event) :
    (w.built s v es).controlOf s = { w.controlOf s with state := .occupied, count := 1, type := some v.type } := by
  apply controlOf_setControl_self
  rw [find?_setStorage, if_pos rfl, Option.isSome_map]
  exact hx

theorem typeIn_built (hx : (w.slots.find? s).isSome) (v : Value) (es : List Event) :
    (w.built s v es).typeIn s = some v.type := by
  rw [typeIn_eq_some_iff, controlOf_built hx]
  exact ⟨rfl, rfl⟩

/-! ### Handles -/

/-- The handle of a value that was built owns it. -/
theorem World.Sound.built {seed : Seed} {es : List Event} (hw : w.Sound M) (hn : seed.IsNew)
    (hx : (w.slots.find? s).isSome) (he : (w.controlOf s).state = .empty)
    (hroom : (w.controlOf s).hasRoom seed.value.type.size seed.value.type.alignment) (hs : h.slot = some s)
    (hd : h.ref.Denotes h.elem s seed.value.type) : (w.built s seed.value es).Sound (h ::ₘ M) := by
  have hnew := (hw.addNew hn).log es
  have hb := hnew.balanced
  rw [add_assoc] at hb
  have hbuilt := hb.build (h := h) (by rw [controlOf_log, he]; decide) hx hn.isProper hroom hs hd
  rw [← Multiset.cons_add] at hbuilt
  have hsound : (((w.log es).setStorage s seed.value).setControl s
      { w.controlOf s with state := .occupied, count := 1, type := some seed.value.type }).Sound (h ::ₘ M) :=
    ⟨hbuilt, hw.held, hw.values, hw.proper⟩
  exact hsound.log _

theorem evolves_built {es : List Event} (hq : Quiet es) (hx : (w.slots.find? s).isSome)
    (he : (w.controlOf s).state = .empty) (v : Value) : w.Evolves (w.built s v es) := by
  have htrace : (w.built s v es).trace = w.trace ++ (es ++ [.constructed s v.type]) := List.append_assoc ..
  refine ⟨⟨_, htrace.symm⟩, ?_⟩
  intro t
  have hlife : lifeOf t ((w.built s v es).since w) = lifeOf t [.constructed s v.type] := by
    rw [since_eq htrace, lifeOf_append, hq t, List.nil_append]
  by_cases hts : t = s
  · subst hts
    refine .built v.type he (by rw [controlOf_built hx]) (typeIn_built hx v es) ?_
    rw [hlife]
    simp [lifeOf, Event.marks]
  · have hother : (w.built s v es).controlOf t = w.controlOf t := by
      refine (controlOf_setControl_of_ne _ _ hts).trans ?_
      rw [controlOf_setStorage, controlOf_log]
    refine .kept (by rw [hother]) ?_ ?_
    · exact typeIn_congr hother
    · rw [hlife]
      simp [lifeOf, Event.marks, Ne.symm hts]

/-- A handle is made together with its value in a slot that takes it, unless the constructor throws. -/
theorem make_ends (hw : w.Sound M) (hx : (w.slots.find? s).isSome) (ho : elem.owns o.type.ty) (hn : o.seed.IsNew) :
    Ends (make family elem s o) w
      (fun r w' => match r with
        | .error _ => w' = w ∧ ¬ w.Takes s o.type
        | .ok m => w'.Sound (m.handle ::ₘ M) ∧ w.Evolves w' ∧ w'.held = w.held ∧ w'.typeIn s = some o.type)
      (fun f w' => w.Fails M (fun _ => False) f w' ∧ ∃ t, f = .exception t ∧ o.Throws w s t) := by
  unfold make
  rw [ends_bind]
  refine (placeValue_ends hw.balanced.distinct hx hn).mono ?_ ?_
  · intro r w' hr
    cases r with
    | error e => exact hr
    | ok rest =>
      obtain ⟨⟨he, hroom⟩, es, hes, rfl⟩ := hr
      have hev := evolves_built hes hx he o.seed.value
      have hsound : ∀ h : Handle, h.slot = some s → h.ref = .toValue elem o.type s → h.elem = elem →
          (w.built s o.seed.value es).Sound (h ::ₘ M) := by
        intro h hs href helem
        refine hw.built hn hx he hroom hs ?_
        rw [href, helem]
        exact Referent.denotes_toValue ho s
      have hocc : ((w.built s o.seed.value es).controlOf s).state = .occupied := by
        rw [controlOf_built hx]
      have hadopt : adopting family elem s (.toValue elem o.type s) (w.built s o.seed.value es) =
          .ok ⟨family, elem, some s, .toValue elem o.type s⟩ (w.built s o.seed.value es) := by
        unfold adopting
        rw [bind_of_ok (controlNow_apply ..), if_neg (by simp [hocc])]
        rfl
      dsimp only
      rw [ends_bind, ends_of_ok hadopt]
      exact ⟨hsound _ rfl rfl rfl, hev, rfl, typeIn_built hx o.seed.value es⟩
  · rintro f w' ⟨⟨t, rfl, ht⟩, es, hes, rfl⟩
    exact ⟨⟨hw.log es, (calm_log hes).evolves⟩, t, rfl, ht⟩

/-- The throwing factory throws what the constructor throws, or that the slot does not take the value. -/
theorem makeOrThrow_ends (hw : w.Sound M) (hx : (w.slots.find? s).isSome) (ho : elem.owns o.type.ty)
    (hn : o.seed.IsNew) :
    Ends (makeOrThrow family elem s o) w
      (fun m w' => w'.Sound (m.handle ::ₘ M) ∧ w.Evolves w' ∧ w'.held = w.held ∧ w'.typeIn s = some o.type)
      (fun f w' => w.Fails M (fun _ => False) f w' ∧ (w.Takes s o.type → ∃ t, f = .exception t ∧ o.Throws w s t)) := by
  unfold makeOrThrow
  rw [ends_bind]
  refine (make_ends hw hx ho hn).mono ?_ fun _ _ h => ⟨h.1, fun _ => h.2⟩
  intro r w' hr
  cases r with
  | error e =>
    obtain ⟨rfl, htakes⟩ := hr
    exact ⟨⟨hw, (Calm.refl w').evolves⟩, fun ht => absurd ht htakes⟩
  | ok m => exact hr

end SlotHandles
