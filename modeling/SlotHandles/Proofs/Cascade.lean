import SlotHandles.Proofs.Balance
import SlotHandles.Proofs.Lifeline

/-!
# Cascades

Letting go of a handle can tear down a value, whose handle is let go of in turn, and so on through a chain of slots.
Such a cascade never fails in a balanced world and leaves a balanced world (`release_ends`): the handle is gone, and
nothing happened but the teardown of values (`World.Sheds`), where no slot lost more than one of its owners.

A shared assignment lets go of its old handle while that handle still stands at its place.  If the place is inside
the value of a slot, the world is balanced only under a mask for that one storage.  The cascade goes through as
before, unless it tears down the masked slot itself (`World.Disturbs`); the events tell which is the case.
-/

namespace SlotHandles

open World

variable {w w' : World} {s : SlotId} {v : Value} {h : Handle} {X : Multiset Handle} {m : Option (SlotId × Value)}

/-! ### A cascade only appends to the trace -/

theorem extends_claim (s : SlotId) (l : Layout) : Extends (claim s l) := by
  refine extends_bind (fun _ => List.prefix_rfl) fun c => ?_
  split
  · exact extends_pure _
  · refine extends_bind (extends_onControl _ _) fun b => ?_
    cases b <;> exact extends_pure _

section

variable {td : SlotId → Act Unit} (htd : ∀ s, Extends (td s))

include htd

theorem extends_releaseWith (h : Handle) : Extends (releaseWith td h) := by
  unfold releaseWith
  cases h.slot with
  | none => exact extends_pure ()
  | some s =>
    cases h.family with
    | unique => exact htd s
    | shared =>
      refine extends_bind (extends_onControl _ _) fun b => ?_
      cases b with
      | true => exact htd s
      | false => exact extends_pure ()

theorem extends_destroyWith (v : Value) : Extends (destroyWith td v) := by
  refine extends_bind (extends_recordAll _) fun _ => ?_
  cases v.next? with
  | none => exact extends_pure ()
  | some h => exact extends_releaseWith htd h

theorem extends_performWith (id : Int32) (s : SlotId) (a : Action) : Extends (performWith td id s a) := by
  cases a with
  | place t =>
    refine extends_bind (extends_claim s t.layout) fun r => ?_
    cases r with
    | error e => exact extends_record _
    | ok _ =>
      refine extends_bind (extends_recordAll _) fun _ => extends_bind ?_ fun _ => extends_record _
      exact extends_bind (extends_writeObject _ _) fun _ =>
        extends_bind (extends_onControl _ _) fun _ => extends_record _
  | tryClaim => exact extends_bind (extends_onControl _ _) fun _ => extends_pure _
  | publish t => exact extends_onControl _ _
  | abandon => exact extends_onControl _ _
  | teardown => exact htd s
  | addReference => exact extends_onControl _ _
  | dropReference =>
    refine extends_bind (extends_onControl _ _) fun b => ?_
    cases b with
    | true => exact htd s
    | false => exact extends_pure ()
  | raise => exact extends_throw _

/-- The destruction of a stored value stands in the trace, whatever follows it. -/
theorem destroyStoredWith_trace (s : SlotId) (t : StoredType) (w : World) :
    Ends (destroyStoredWith td s t) w (fun _ w' => (w.log [.destructed s t]).trace <+: w'.trace)
      (fun _ w' => (w.log [.destructed s t]).trace <+: w'.trace) := by
  unfold destroyStoredWith
  rw [ends_bind, ends_of_ok (record_apply ..)]
  refine extends_bind extends_get (fun u => ?_) (w.log [.destructed s t])
  dsimp only
  split
  · refine extends_bind (fun _ => List.prefix_rfl) fun c => extends_bind (extends_record _) fun _ => ?_
    exact extends_bind (extends_forM fun a => extends_performWith htd _ s a) fun _ => extends_destroyWith htd _
  · exact extends_bind (extends_writeObject _ _) fun _ => extends_destroyWith htd _
  · exact extends_destroyWith htd _

end

theorem extends_tearDownWithin (depth : Nat) (s : SlotId) : Extends (tearDownWithin depth s) := by
  induction depth generalizing s with
  | zero => exact extends_bind (extends_onControl _ _) fun _ => extends_pure _
  | succ depth ih =>
    refine extends_bind (extends_onControl _ _) fun t => ?_
    cases t with
    | none => exact extends_onControl _ _
    | some t =>
      refine extends_bind (fun w => ?_) fun _ => extends_onControl _ _
      exact (destroyStoredWith_trace ih s t w).mono (fun _ _ h => (List.prefix_append ..).trans h) fun _ _ h =>
        (List.prefix_append ..).trans h

/-! ### The destruction of one value -/

/-- Let go of the handle that a value stores. -/
def releaseNextWith (td : SlotId → Act Unit) (v : Value) : Act Unit :=
  match v.next? with
  | some h => releaseWith td h
  | none => pure ()

theorem log_log (w : World) (es es' : List Event) : (w.log es).log es' = w.log (es ++ es') := by
  unfold World.log
  dsimp only
  rw [List.append_assoc]

theorem destroyWith_apply (td : SlotId → Act Unit) (v : Value) (w : World) :
    destroyWith td v w = releaseNextWith td v (w.log v.parting) := by
  unfold destroyWith releaseNextWith
  refine (bind_of_ok (recordAll_apply ..)).trans ?_
  cases v.next? <;> rfl

theorem objectAs_slot (hv : w.storageOf s = some v) : w.objectAs (.slot s) v.type = v := by
  unfold objectAs object?
  dsimp only
  rw [hv]
  simp

/-- What is left of a value in its storage: the exclusive handle that it stored is empty. -/
def Value.remains : Value → Value
  | .node id next => .node id next.cleared
  | v => v

/-- What a passive value announces when it is destroyed in a slot with the block. -/
def Value.lastWords (c : ControlBlock) : Value → List Event
  | .probe id _ _ => [.probeDestroyed id c.summary]
  | v => v.parting

theorem quiet_lastWords (c : ControlBlock) (v : Value) : Quiet (v.lastWords c) := by
  unfold Value.lastWords
  split
  · exact fun _ => rfl
  · exact quiet_parting v

/-- A passive value in a claimed slot announces its end and lets go of its handle. -/
theorem destroyStoredWith_apply (td : SlotId → Act Unit) (hv : w.storageOf s = some v) (hp : v.isPassive) :
    ∃ u, (u = w ∧ v.remains = v ∨ u = w.setStorage s v.remains) ∧ destroyStoredWith td s v.type w =
      releaseNextWith td v (u.log (.destructed s v.type :: v.lastWords (w.controlOf s))) := by
  have hobj : (w.log [.destructed s v.type]).objectAs (.slot s) v.type = v := objectAs_slot hv
  unfold destroyStoredWith
  rw [bind_of_ok (record_apply ..), bind_of_ok (rfl : (get : Act World) _ = .ok _ _)]
  simp only [hobj]
  cases v with
  | probe id onBuild onDestroy =>
    obtain rfl : onDestroy = [] := by
      simp only [Value.isPassive, Bool.and_eq_true, List.isEmpty_iff] at hp
      exact hp.2
    refine ⟨w, .inl ⟨rfl, rfl⟩, ?_⟩
    dsimp only
    rw [bind_of_ok (controlNow_apply ..), bind_of_ok (record_apply ..),
      bind_of_ok (rfl : ([] : List Action).forM (performWith td id s) _ = .ok () _), destroyWith_apply, log_log,
      log_log]
    rfl
  | node id next =>
    refine ⟨w.setStorage s (.node id next.cleared), .inr rfl, ?_⟩
    dsimp only
    rw [bind_of_ok (writeObject_apply ..), destroyWith_apply]
    change releaseNextWith td _ (((w.setStorage s _).log _).log _) = _
    rw [log_log]
    rfl
  | _ =>
    dsimp only
    rw [destroyWith_apply, log_log]
    exact ⟨w, .inl ⟨rfl, rfl⟩, rfl⟩

/-! ### One slot of a cascade -/

def World.Disturbs (w : World) (m : Option (SlotId × Value)) (w' : World) : Prop :=
  ∃ s v, m = some (s, v) ∧ w.TearsDown w' s

theorem World.Disturbs.widen {u u' : World} (h : w.Disturbs m w') (hu : u.trace <+: w.trace)
    (hu' : w'.trace <+: u'.trace) : u.Disturbs m u' := by
  obtain ⟨s, v, hm, ht⟩ := h
  exact ⟨s, v, hm, ht.widen hu hu'⟩

theorem World.not_disturbs_none : ¬ w.Disturbs none w' := by
  rintro ⟨_, _, hm, -⟩
  cases hm

/-- A cascade tore down values and left a balanced world. -/
structure World.Settles (w : World) (m : Option (SlotId × Value)) (X : Multiset Handle) (w' : World) : Prop where
  balanced : (w'.masked m).Balanced X
  sheds : w.Sheds w'

/-- The value of a slot has announced its end, and the handle it stores is about to be let go of. -/
structure World.Underway (w : World) (s : SlotId) (t : StoredType) (w₂ : World) : Prop where
  other : ∀ x, x ≠ s → w₂.controlOf x = w.controlOf x ∧ w₂.storageOf x = w.storageOf x
  held : w₂.held = w.held ∧ w₂.bag = w.bag ∧ w₂.values = w.values
  trace : ∃ es, Quiet es ∧ w₂.trace = w.trace ++ .destructed s t :: es
  state : (w₂.controlOf s).state = .tearingDown

/-- The slot that starts a cascade, from the claim to the return of the slot. -/
theorem World.Sheds.teardown {t : StoredType} {w₂ w₃ : World} (ht : w.typeIn s = some t)
    (hcount : (w.controlOf s).count = 1) (hu : w.Underway s t w₂) (h : w₂.Sheds w₃) :
    w.Sheds (w₃.setControl s { w₃.controlOf s with state := .empty }) := by
  obtain ⟨hother, hheld, ⟨es, hq, htrace⟩, hstate⟩ := hu
  have hpre : w.trace <+: w₂.trace := ⟨_, htrace.symm⟩
  have hsince : ∀ c : ControlBlock, (w₃.setControl s c).since w = (.destructed s t :: es) ++ w₃.since w₂ := by
    intro c
    rw [← since_eq htrace]
    exact since_trans hpre h.trace
  have hidle : (w₂.controlOf s).state ≠ .occupied := by rw [hstate]; decide
  have hs₃ : (w₃.controlOf s).state = .tearingDown := (h.kept_of_not_occupied hidle).trans hstate
  refine ⟨h.held.trans hheld.1, h.bag.trans hheld.2.1, h.values.trans hheld.2.2, hpre.trans h.trace, ?_⟩
  intro x
  by_cases hx : x = s
  -- the rest of the cascade leaves the claimed slot alone, so its own end is the one event
  · subst hx
    refine .ended t ht (by rw [hcount]; decide) ?_ ?_
    · rw [controlOf_setControl_self _ (find?_isSome_of_state (by rw [hs₃]; decide))]
    · have hlife : lifeOf x (w₃.since w₂) = [] := by
        rcases h.slot x with ⟨-, -, -, hl⟩ | ⟨u, hu, -⟩
        · exact hl
        · exact absurd (typeIn_eq_some_iff.mp hu).1 hidle
      rw [hsince, lifeOf_append, hlife, List.append_nil]
      change List.filter _ (_ :: es) = _
      rw [List.filter_cons_of_pos (by simp [Event.marks])]
      exact congrArg _ (hq x)
  -- in any other slot only the rest of the cascade counts
  · obtain ⟨hc, hv⟩ := hother x hx
    have hlife : lifeOf x (.destructed s t :: es ++ w₃.since w₂) = lifeOf x (w₃.since w₂) := by
      rw [lifeOf_append]
      change List.filter _ (_ :: es) ++ _ = _
      rw [List.filter_cons_of_neg (by simp [Event.marks, Ne.symm hx])]
      change lifeOf x es ++ _ = _
      rw [hq x, List.nil_append]
    rcases h.slot x with ⟨h1, h2, h3, h4⟩ | ⟨u, h1, hc1, h2, h3⟩
    · refine .kept ?_ ?_ ?_ ?_
      · rw [controlOf_setControl_of_ne _ _ hx, h1, hc]
      · rw [typeIn_setControl_of_ne _ _ hx, h2, typeIn_congr hc]
      · rw [storageOf_setControl, h3, hv]
      · rw [hsince, hlife, h4]
    · refine .ended u ((typeIn_congr hc).symm.trans h1) (hc ▸ hc1) ?_ ?_
      · rw [controlOf_setControl_of_ne _ _ hx, h2]
      · rw [hsince, hlife, h3]

theorem releaseWith_of_empty {td : SlotId → Act Unit} (hs : h.slot = none) : releaseWith td h w = .ok () w := by
  unfold releaseWith
  rw [hs]
  rfl

/-- Count one reference less; if it was the last one, tear down. -/
def dropWith (td : SlotId → Act Unit) (s : SlotId) : Act Unit := do
  if ← onControl s ControlBlock.dropReference then td s

theorem dropWith_apply (td : SlotId → Act Unit) (s : SlotId) (w : World) :
    dropWith td s w =
      if (w.controlOf s).count = 0 then
        .error (.violation .countUnderflow) (w.setControl s { w.controlOf s with count := (w.controlOf s).count - 1 })
      else if (w.controlOf s).count = 1 then
        td s (w.setControl s { w.controlOf s with count := (w.controlOf s).count - 1 })
      else .ok () (w.setControl s { w.controlOf s with count := (w.controlOf s).count - 1 }) := by
  have happly := ControlBlock.dropReference_apply (w.controlOf s)
  unfold dropWith
  by_cases h0 : (w.controlOf s).count = 0
  · rw [if_pos h0] at happly ⊢
    exact bind_of_error (onControl_error happly)
  · rw [if_neg h0] at happly ⊢
    rw [bind_of_ok (onControl_ok happly)]
    by_cases h1 : (w.controlOf s).count = 1
    · rw [decide_eq_true h1, if_pos rfl, if_pos h1]
    · rw [decide_eq_false h1, if_neg h1]
      rfl

/-- A drop is reported, goes on as a teardown, or only counts. -/
theorem ends_dropWith {td : SlotId → Act Unit} {good : Unit → World → Prop} {bad : Failure → World → Prop}
    (hnone : (w.controlOf s).count = 0 →
      bad (.violation .countUnderflow) (w.setControl s { w.controlOf s with count := (w.controlOf s).count - 1 }))
    (hlast : (w.controlOf s).count = 1 →
      Ends (td s) (w.setControl s { w.controlOf s with count := (w.controlOf s).count - 1 }) good bad)
    (hmore : (w.controlOf s).count ≠ 0 → (w.controlOf s).count ≠ 1 →
      good () (w.setControl s { w.controlOf s with count := (w.controlOf s).count - 1 })) :
    Ends (dropWith td s) w good bad := by
  unfold Ends at hlast ⊢
  rw [dropWith_apply]
  by_cases h0 : (w.controlOf s).count = 0
  · rw [if_pos h0]
    exact hnone h0
  rw [if_neg h0]
  by_cases h1 : (w.controlOf s).count = 1
  · rw [if_pos h1]
    exact hlast h1
  · rw [if_neg h1]
    exact hmore h0 h1

/-- A count is no matter of the number of live slots, so the depth of the teardown after a drop is known before. -/
theorem dropWith_tearDown (hd : w.slots.Distinct) (s : SlotId) :
    dropWith tearDown s w = dropWith (tearDownWithin w.liveSlots) s w := by
  rw [dropWith_apply, dropWith_apply]
  by_cases h0 : (w.controlOf s).count = 0
  · rw [if_pos h0, if_pos h0]
  · unfold tearDown
    rw [liveSlots_setControl_of_state (c := { w.controlOf s with count := (w.controlOf s).count - 1 }) hd
      (find?_isSome_of_count h0) rfl]

/-- Letting go of a handle under a mask: a balanced world is left, or the masked slot was torn down. -/
def Releases (depth : Nat) (m : Option (SlotId × Value)) : Prop :=
  ∀ (w : World) (h : Handle) (X : Multiset Handle), (w.masked m).Balanced (h ::ₘ X) → (w.masked m).liveSlots ≤ depth →
    Ends (releaseWith (tearDownWithin depth) h) w (fun _ w' => w.Disturbs m w' ∨ w.Settles m X w')
      (fun _ w' => w.Disturbs m w')

/-- The world in which a slot has been claimed for the destruction of its value. -/
def World.claimed (w : World) (s : SlotId) (n : UInt32) : World :=
  w.setControl s { w.controlOf s with state := .tearingDown, count := n, type := none }

/-- Claiming an occupied slot for destruction, whatever its count was set to. -/
theorem onControl_beginTeardown (n : UInt32) (ho : (w.controlOf s).state = .occupied) :
    onControl s ControlBlock.beginTeardown (w.setControl s { w.controlOf s with count := n }) =
      .ok (w.controlOf s).type (w.claimed s n) := by
  have hself : (w.setControl s { w.controlOf s with count := n }).controlOf s = { w.controlOf s with count := n } :=
    controlOf_setControl_self _ (find?_isSome_of_occupied ho)
  rw [World.claimed, ← setControl_setControl w s { w.controlOf s with count := n } { w.controlOf s with
    state := .tearingDown, count := n, type := none }]
  apply onControl_ok
  rw [hself, ControlBlock.beginTeardown_apply, if_pos ho]

/-- Only an occupied slot can be torn down. -/
theorem tearDownWithin_idle (depth : Nat) (h : (w.controlOf s).state ≠ .occupied) :
    ∃ w', tearDownWithin depth s w = .error (.violation (.doubleTeardown (w.controlOf s).state)) w' := by
  have hbegin := onControl_error (s := s) (w := w) ((ControlBlock.beginTeardown_apply _).trans (if_neg h))
  refine ⟨w.setControl s (w.controlOf s), ?_⟩
  cases depth with
  | zero => exact map_of_error (f := fun _ => ()) hbegin
  | succ depth => exact bind_of_error hbegin

theorem tearDownWithin_succ (depth : Nat) (n : UInt32) (ho : (w.controlOf s).state = .occupied) {t : StoredType}
    (ht : (w.controlOf s).type = some t) :
    tearDownWithin (depth + 1) s (w.setControl s { w.controlOf s with count := n }) =
      (destroyStoredWith (tearDownWithin depth) s t >>= fun _ => onControl s ControlBlock.vacate) (w.claimed s n) := by
  have hbegin := onControl_beginTeardown n ho
  rw [ht] at hbegin
  unfold tearDownWithin
  rw [bind_of_ok hbegin]

theorem tearDownWithin_masked (depth : Nat) (n : UInt32) (ho : (w.controlOf s).state = .occupied) {t : StoredType}
    (ht : (w.controlOf s).type = some t) (hm : m = some (s, v)) :
    Ends (tearDownWithin (depth + 1) s) (w.setControl s { w.controlOf s with count := n }) (fun _ w' => w.Disturbs m w')
      (fun _ w' => w.Disturbs m w') := by
  have hd : ∀ w' : World, ((w.claimed s n).log [.destructed s t]).trace <+: w'.trace → w.Disturbs m w' := by
    rintro w' ⟨es, he⟩
    refine ⟨s, v, hm, t, .destructed s t :: es, ?_, List.mem_cons_self⟩
    rw [← he, World.trace_log, List.append_assoc]
    rfl
  rw [ends_congr (tearDownWithin_succ depth n ho ht), ends_bind]
  refine (destroyStoredWith_trace (extends_tearDownWithin depth) s t (w.claimed s n)).mono ?_ fun _ _ h => hd _ h
  intro _ u hu
  exact (extends_onControl s _ u).mono (fun _ _ h => hd _ (hu.trans h)) fun _ _ h => hd _ (hu.trans h)

/-- The value of a slot that was claimed has announced its end. -/
def World.Parted (w : World) (s : SlotId) (v : Value) (n : UInt32) (w₂ : World) : Prop :=
  ∃ u, (u = w.claimed s n ∨ u = (w.claimed s n).setStorage s v.remains) ∧
    w₂ = u.log (.destructed s v.type :: v.lastWords ((w.claimed s n).controlOf s))

theorem destroyStoredWith_parts (td : SlotId → Act Unit) (n : UInt32) (hv : w.storageOf s = some v) (hp : v.isPassive) :
    ∃ w₂, w.Parted s v n w₂ ∧ destroyStoredWith td s v.type (w.claimed s n) = releaseNextWith td v w₂ := by
  have hvc : (w.claimed s n).storageOf s = some v := (storageOf_setControl ..).trans hv
  obtain ⟨u, hu, hrun⟩ := destroyStoredWith_apply td hvc hp
  exact ⟨_, ⟨u, hu.imp And.left id, rfl⟩, hrun⟩

theorem World.Parted.controlOf {w₂ : World} {n : UInt32} (h : w.Parted s v n w₂) (hx : (w.slots.find? s).isSome) :
    w₂.controlOf s = { w.controlOf s with state := .tearingDown, count := n, type := none } := by
  have hclaimed : (w.claimed s n).controlOf s = _ := controlOf_setControl_self _ hx
  obtain ⟨u, hu, rfl⟩ := h
  rw [controlOf_log]
  rcases hu with rfl | rfl
  · exact hclaimed
  · exact (controlOf_setStorage ..).trans hclaimed

theorem World.Parted.trace {w₂ : World} {n : UInt32} (h : w.Parted s v n w₂) :
    w₂.trace = w.trace ++ .destructed s v.type :: v.lastWords ((w.claimed s n).controlOf s) := by
  obtain ⟨u, hu, rfl⟩ := h
  rcases hu with rfl | rfl <;> rfl

/-- The count of a slot when its last owner has let go: only shared owners count down. -/
def Family.countLeft : Family → UInt32
  | .unique => 1
  | .shared => 0

/-- The last owner lets go of a value, whatever its family: up to the release of the handle that the value stores. -/
theorem releaseWith_last (depth : Nat) (hd : w.slots.Distinct) (hs : h.slot = some s)
    (ho : (w.controlOf s).state = .occupied) (ht : (w.controlOf s).type = some v.type)
    (hcount : (w.controlOf s).count = 1) (hv : w.storageOf s = some v) (hp : v.isPassive) :
    ∃ w₁, w.Parted s v h.family.countLeft w₁ ∧ releaseWith (tearDownWithin (depth + 1)) h w =
      (releaseNextWith (tearDownWithin depth) v >>= fun _ => onControl s ControlBlock.vacate) w₁ := by
  have hlast : ∀ n, ∃ w₁, w.Parted s v n w₁ ∧
      tearDownWithin (depth + 1) s (w.setControl s { w.controlOf s with count := n }) =
        (releaseNextWith (tearDownWithin depth) v >>= fun _ => onControl s ControlBlock.vacate) w₁ := by
    intro n
    obtain ⟨w₁, hparted, hrun⟩ := destroyStoredWith_parts (tearDownWithin depth) n hv hp
    exact ⟨w₁, hparted, (tearDownWithin_succ depth n ho ht).trans (bind_congr_of_eq hrun)⟩
  unfold releaseWith
  rw [hs]
  cases h.family with
  | unique =>
    obtain ⟨w₁, hparted, hrun⟩ := hlast (w.controlOf s).count
    rw [setControl_controlOf hd] at hrun
    rw [hcount] at hparted
    exact ⟨w₁, hparted, hrun⟩
  | shared =>
    obtain ⟨w₁, hparted, hrun⟩ := hlast ((w.controlOf s).count - 1)
    have hdrop := dropWith_apply (tearDownWithin (depth + 1)) s w
    rw [if_neg (by rw [hcount]; decide), if_pos hcount] at hdrop
    rw [hcount] at hparted
    exact ⟨w₁, hparted, hdrop.trans hrun⟩

/-- A claimed slot up to the release of the handle in its value. -/
theorem World.Parted.starts {w₂ : World} {n : UInt32} (hparted : w.Parted s v n w₂) (hm : ∀ v', m ≠ some (s, v'))
    (hd : (w.masked m).slots.Distinct) (ho : (w.controlOf s).state = .occupied)
    (hstrike : ∀ c : ControlBlock, c.state ≠ .occupied →
      ((w.masked m).setControl s c).Balanced ((v.next?.toList : Multiset Handle) + X)) :
    w.Underway s v.type w₂ ∧ (w₂.masked m).Balanced ((v.next?.toList : Multiset Handle) + X) ∧
      (w₂.masked m).liveSlots + 1 = (w.masked m).liveSlots := by
  have hom : ((w.masked m).controlOf s).state = .occupied := by rwa [controlOf_masked]
  have hmasked : (w.claimed s n).masked m =
      (w.masked m).setControl s { w.controlOf s with state := .tearingDown, count := n, type := none } :=
    masked_setControl ..
  have hstate : ((w.claimed s n).controlOf s).state = .tearingDown :=
    congrArg _ (controlOf_setControl_self _ (find?_isSome_of_occupied ho))
  have hidle : (((w.claimed s n).masked m).controlOf s).state ≠ .occupied := by
    rw [controlOf_masked, hstate]
    decide
  have hb : ((w.claimed s n).masked m).Balanced ((v.next?.toList : Multiset Handle) + X) :=
    hmasked ▸ hstrike _ (by simp)
  have hl : ((w.claimed s n).masked m).liveSlots + 1 = (w.masked m).liveSlots :=
    hmasked ▸ liveSlots_strike hd hom (by simp)
  have hq := quiet_lastWords ((w.claimed s n).controlOf s) v
  obtain ⟨u, hu, rfl⟩ := hparted
  rw [masked_log]
  rcases hu with rfl | rfl
  · refine ⟨⟨?_, ⟨rfl, rfl, rfl⟩, ⟨_, hq, rfl⟩, ?_⟩, hb.log _, hl⟩
    · intro x hx
      exact ⟨controlOf_setControl_of_ne _ _ hx, storageOf_setControl ..⟩
    · rw [controlOf_log, hstate]
  · rw [masked_setStorage (w.claimed s n) hm v.remains]
    refine ⟨⟨?_, ⟨rfl, rfl, rfl⟩, ⟨_, hq, rfl⟩, ?_⟩, (hb.setStorage_idle hidle v.remains).log _, ?_⟩
    · intro x hx
      rw [controlOf_log, storageOf_log, controlOf_setStorage, storageOf_setStorage_of_ne _ _ hx]
      exact ⟨controlOf_setControl_of_ne _ _ hx, storageOf_setControl ..⟩
    · rw [controlOf_log, controlOf_setStorage, hstate]
    · exact (congrArg (· + 1) (liveSlots_setStorage hb.distinct s v.remains)).trans hl

/-- The last owner of a slot lets go, and its count may show that already: the value is torn down, and the handle in
the value is let go of. -/
theorem tearDownWithin_ends {depth : Nat} (ih : Releases depth m) (hb : (w.masked m).Balanced (h ::ₘ X))
    (hs : h.slot = some s) (hcount : (w.controlOf s).count = 1) (n : UInt32)
    (hlive : (w.masked m).liveSlots ≤ depth + 1) :
    Ends (tearDownWithin (depth + 1) s) (w.setControl s { w.controlOf s with count := n })
      (fun _ w' => w.Disturbs m w' ∨ w.Settles m X w') (fun _ w' => w.Disturbs m w') := by
  have hom := hb.occupied (h := h) (by simp) hs
  have ho : (w.controlOf s).state = .occupied := by rwa [controlOf_masked] at hom
  obtain ⟨v, hv, htype, -, hp⟩ := hb.value hom
  have ht : (w.controlOf s).type = some v.type := by rwa [typeIn_of_occupied hom, controlOf_masked] at htype
  by_cases hm : ∃ v', m = some (s, v')
  · obtain ⟨v', hm⟩ := hm
    exact (tearDownWithin_masked depth n ho ht hm).mono (fun _ _ h => .inl h) fun _ _ h => h
  have hstrike : ∀ c : ControlBlock, c.state ≠ .occupied →
      ((w.masked m).setControl s c).Balanced ((v.next?.toList : Multiset Handle) + X) := by
    intro c hc
    exact hb.strike hs (by rwa [controlOf_masked]) hv hc
  have hvw : w.storageOf s = some v := by rwa [storageOf_masked w fun v' h => hm ⟨v', h⟩] at hv
  obtain ⟨w₂, hparted, hrun⟩ := destroyStoredWith_parts (tearDownWithin depth) n hvw hp.passive
  obtain ⟨hu, hb₂, hl₂⟩ := hparted.starts (fun v' h => hm ⟨v', h⟩) hb.distinct ho hstrike
  have hpre : w.trace <+: w₂.trace := by
    obtain ⟨es, -, he⟩ := hu.trace
    exact ⟨_, he.symm⟩
  rw [ends_congr (tearDownWithin_succ depth n ho ht), ends_bind, ends_congr hrun]
  -- once the handle is gone, the slot is given back
  have hvacate : ∀ w₃ : World, (w₃.masked m).Balanced X → w₂.Sheds w₃ →
      w.Settles m X (w₃.setControl s { w₃.controlOf s with state := .empty }) := by
    intro w₃ hb₃ hs₃
    have hidle : ((w₃.masked m).controlOf s).state ≠ .occupied := by
      rw [controlOf_masked, hs₃.kept_of_not_occupied (by rw [hu.state]; decide), hu.state]
      decide
    refine ⟨?_, hs₃.teardown ((typeIn_of_occupied ho).trans ht) hcount hu⟩
    rw [masked_setControl]
    exact hb₃.setControl_idle hidle (by simp)
  unfold releaseNextWith
  cases hnext : v.next? with
  | none =>
    rw [hnext] at hb₂
    exact .inr (hvacate w₂ (by simpa using hb₂) (.refl w₂))
  | some g =>
    rw [hnext] at hb₂
    have hdepth : (w₂.masked m).liveSlots ≤ depth := by omega
    refine (ih w₂ g X (by simpa using hb₂) hdepth).mono ?_ fun _ _ h => h.widen hpre List.prefix_rfl
    rintro - w₃ (h | h)
    · exact .inl (h.widen hpre List.prefix_rfl)
    · exact .inr (hvacate w₃ h.balanced h.sheds)

/-! ### Letting go of a handle -/

theorem settles_refl (hb : (w.masked m).Balanced (h ::ₘ X)) (hs : h.slot = none) : w.Settles m X w := by
  have hr : h.RefersIn (w.masked m) := hb.refers h (by simp)
  exact ⟨(World.Balanced.cons_iff_of_empty hs hr).mp hb, .refl w⟩

theorem settles_dropShared (hb : (w.masked m).Balanced (h ::ₘ X)) (hf : h.family = .shared) (hs : h.slot = some s)
    (hcount : (w.controlOf s).count ≠ 1) :
    w.Settles m X (w.setControl s { w.controlOf s with count := (w.controlOf s).count - 1 }) := by
  have hom := hb.occupied (h := h) (by simp) hs
  have ho : (w.controlOf s).state = .occupied := by rwa [controlOf_masked] at hom
  have hdrop := hb.dropShared hf hs (by rwa [controlOf_masked])
  rw [controlOf_masked, ← masked_setControl] at hdrop
  exact ⟨hdrop, sheds_recount (find?_isSome_of_occupied ho) _⟩

theorem count_ne_zero_of_shared (hb : (w.masked m).Balanced (h ::ₘ X)) (hf : h.family = .shared)
    (hs : h.slot = some s) : (w.controlOf s).count ≠ 0 := by
  have hmem : h ∈ h ::ₘ X + (w.masked m).nested := by simp
  have hpos := hb.shared_count hmem hf hs
  have hsum := hb.count_eq (hb.occupied hmem hs)
  rw [controlOf_masked] at hsum
  intro h0
  rw [h0] at hsum
  have hzero : (0 : UInt32).toNat = 0 := rfl
  omega

/-- The depth of a cascade is bounded by the number of live slots. -/
theorem releases (depth : Nat) (m : Option (SlotId × Value)) : Releases depth m := by
  -- a claimed slot is no longer live, which leaves one live slot less for the rest of the cascade
  induction depth with
  | zero =>
    intro w h X hb hlive
    unfold releaseWith
    cases hs : h.slot with
    | none => exact .inr (settles_refl hb hs)
    -- a handle with a slot needs at least one live slot
    | some s =>
      have hpos := liveSlots_pos (hb.occupied (h := h) (by simp) hs)
      omega
  | succ depth ih =>
    intro w h X hb hlive
    unfold releaseWith
    cases hs : h.slot with
    | none => exact .inr (settles_refl hb hs)
    | some s =>
      cases hf : h.family with
      | unique =>
        have hcount := hb.count_of_unique (h := h) (by simp) hf hs
        rw [controlOf_masked] at hcount
        have hlast := tearDownWithin_ends ih hb hs hcount (w.controlOf s).count hlive
        rwa [setControl_controlOf (distinct_of_masked hb.distinct)] at hlast
      | shared =>
        refine ends_dropWith (fun h0 => absurd h0 (count_ne_zero_of_shared hb hf hs)) ?_ ?_
        · exact fun hcount => tearDownWithin_ends ih hb hs hcount _ hlive
        · exact fun _ hcount => .inr (settles_dropShared hb hf hs hcount)

/-- Letting go of a handle leaves the number of live slots as it is, so that number is depth enough. -/
theorem release_apply (hd : w.slots.Distinct) (h : Handle) :
    release h w = releaseWith (tearDownWithin w.liveSlots) h w := by
  unfold release releaseWith
  cases h.slot with
  | none => rfl
  | some s =>
    cases h.family with
    | unique => rfl
    | shared => exact dropWith_tearDown hd s

theorem release_ends (hb : (w.masked m).Balanced (h ::ₘ X)) :
    Ends (release h) w (fun _ w' => w.Disturbs m w' ∨ w.Settles m X w') (fun _ w' => w.Disturbs m w') := by
  rw [ends_congr (release_apply (distinct_of_masked hb.distinct) h)]
  exact releases w.liveSlots m w h X hb (liveSlots_masked hb.distinct).le

/-- Without a mask nothing can be disturbed. -/
theorem releaseWith_ok {depth : Nat} (hb : w.Balanced (h ::ₘ X)) (hlive : w.liveSlots ≤ depth) :
    ∃ w', releaseWith (tearDownWithin depth) h w = .ok () w' ∧ w'.Balanced X ∧ w.Sheds w' := by
  have hr := releases depth none w h X hb hlive
  unfold Ends at hr
  split at hr
  · next u w' he =>
    rcases hr with h | h
    · exact absurd h not_disturbs_none
    · exact ⟨w', he, h.balanced, h.sheds⟩
  · exact absurd hr not_disturbs_none

/-- The handle that a value stores can be let go of. -/
theorem releaseNextWith_ok {depth : Nat} (hb : w.Balanced ((v.next?.toList : Multiset Handle) + X))
    (hlive : w.liveSlots ≤ depth) :
    ∃ w', releaseNextWith (tearDownWithin depth) v w = .ok () w' ∧ w'.Balanced X ∧ w.Sheds w' := by
  unfold releaseNextWith
  cases hn : v.next? with
  | none =>
    rw [hn] at hb
    exact ⟨w, rfl, by simpa using hb, .refl w⟩
  | some g =>
    rw [hn] at hb
    exact releaseWith_ok (by simpa using hb) hlive

theorem release_ok (hb : w.Balanced (h ::ₘ X)) : ∃ w', release h w = .ok () w' ∧ w'.Balanced X ∧ w.Sheds w' := by
  rw [release_apply hb.distinct]
  exact releaseWith_ok hb le_rfl

theorem destroyValue_ok (hb : w.Balanced ((v.next?.toList : Multiset Handle) + X)) :
    ∃ w', destroyValue v w = .ok () w' ∧ w'.Balanced X ∧ (w.log v.parting).Sheds w' := by
  unfold destroyValue
  rw [destroyWith_apply]
  unfold releaseNextWith
  cases hn : v.next? with
  | none =>
    rw [hn] at hb
    exact ⟨_, rfl, .log (by simpa using hb) _, .refl _⟩
  | some g =>
    rw [hn] at hb
    exact release_ok (.log (by simpa using hb) _)

end SlotHandles
