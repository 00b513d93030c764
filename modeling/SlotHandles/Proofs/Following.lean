import SlotHandles.Proofs.Drops
import SlotHandles.Proofs.Tracking

/-!
# Every action follows the courses of its slots

The closure of `Follower` under everything that actions are made of, up to the steps of handle programs
(`follower_run`).  No step is asked to be admissible: whatever is called on handles, and in whatever world, control
blocks only see their public calls.
-/

namespace SlotHandles

open World ControlBlock.Course

variable {w w' : World} {s : SlotId} {α β : Type}

/-- From any world with distinct slots, the action leads every block along a course. -/
def Follower (a : Act α) : Prop := ∀ w : World, w.slots.Distinct → Tracked World.Follows a w

theorem follower_pure (x : α) : Follower (pure x) := fun w _ => Follows.refl w

theorem follower_throw (f : Failure) : Follower (throw f : Act α) := fun w _ => tracked_throw f w

theorem Follower.bind {a : Act α} {f : α → Act β} (ha : Follower a) (hf : ∀ x, Follower (f x)) :
    Follower (a >>= f) := by
  intro w hd
  refine Tracked.bind tracking_follows (ha w hd) ?_
  intro x u hu
  exact hf x u (distinct_of_keys hu.keys hd)

theorem Follower.map {a : Act α} (ha : Follower a) (f : α → β) : Follower (f <$> a) := by
  intro w hd
  unfold Tracked
  rw [ends_map]
  exact ha w hd

theorem follower_ite {p : Prop} [Decidable p] {a b : Act α} (ha : Follower a) (hb : Follower b) :
    Follower (if p then a else b) := by
  split
  · exact ha
  · exact hb

theorem follower_forM {f : β → Act Unit} (hf : ∀ x, Follower (f x)) (l : List β) : Follower (l.forM f) := by
  induction l with
  | nil => exact follower_pure ()
  | cons x l ih => exact (hf x).bind fun _ => ih

theorem follower_get : Follower (get : Act World) := fun w _ => Follows.refl w

theorem follower_modify {f : World → World} (hf : ∀ w : World, w.Follows (f w)) : Follower (modify f) := fun w _ => hf w

theorem follower_recordAll (es : List Event) : Follower (recordAll es) := follower_modify fun _ => follows_of_slots rfl

theorem follower_record (e : Event) : Follower (record e) := follower_modify fun _ => follows_of_slots rfl

theorem follower_controlNow (s : SlotId) : Follower (controlNow s) := follower_get.bind fun _ => follower_pure _

theorem follows_setHandle (w : World) (p : Holder) (h : Handle) : w.Follows (w.setHandle p h) := by
  refine follows_of_controlOf ?_ fun s => controlOf_setHandle w p h s
  cases p with
  | named n | result n => rfl
  | inside s =>
    unfold setHandle
    dsimp only
    split
    · exact keys_setStorage ..
    · rfl
  | within n =>
    unfold setHandle
    dsimp only
    split <;> rfl

theorem follows_setObject (w : World) (r : Region) (v : Value) : w.Follows (w.setObject r v) := by
  cases r with
  | slot s => exact follows_setStorage w s v
  | named n => exact follows_of_slots rfl

theorem follower_writeHandle (p : Holder) (h : Handle) : Follower (writeHandle p h) :=
  follower_modify fun w => follows_setHandle w p h

theorem follower_writeObject (r : Region) (v : Value) : Follower (writeObject r v) :=
  follower_modify fun w => follows_setObject w r v

theorem follower_readHandle (p : Holder) : Follower (readHandle p) := by
  refine follower_get.bind fun w => ?_
  cases p with
  | inside s =>
    dsimp only
    split
    · exact (follower_record _).bind fun _ => follower_pure _
    · exact follower_pure _
  | named n | result n | within n => exact follower_pure _

theorem follower_onControl {op : ControlBlock.Op α} (s : SlotId) (h : ∀ b x b', op b = .ok x b' → Leads b b') :
    Follower (onControl s op) :=
  fun w _ => tracked_onControl fun x c hx => follows_setControl (h (w.controlOf s) x c hx)

theorem follower_addReference (s : SlotId) : Follower (onControl s ControlBlock.addReference) :=
  follower_onControl s fun _ _ _ h => leads_addReference h

/-! ### Letting go -/

theorem follower_tearDown (s : SlotId) : Follower (tearDown s) := fun w hd =>
  Ends.mono ((tearsWithin w.liveSlots).winding s w hd le_rfl) (fun _ _ h => h.follows) fun _ _ h => h

theorem follower_dropWith (s : SlotId) : Follower (dropWith tearDown s) := by
  intro w hd
  have hwinds := (tearsWithin w.liveSlots).winding_dropWith s w hd le_rfl
  unfold Tracked at hwinds ⊢
  rw [ends_congr (dropWith_tearDown hd s)]
  exact hwinds.mono (fun _ _ h => h.follows) fun _ _ h => h

theorem follower_release (h : Handle) : Follower (release h) := by
  unfold release releaseWith
  cases h.slot with
  | none => exact follower_pure ()
  | some s =>
    cases h.family with
    | unique => exact follower_tearDown s
    | shared => exact follower_dropWith s

theorem follower_destroyValue (v : Value) : Follower (destroyValue v) := by
  refine (follower_recordAll _).bind fun _ => ?_
  cases v.next? with
  | none => exact follower_pure ()
  | some h => exact follower_release h

/-! ### Building -/

theorem follower_claim (s : SlotId) (l : Layout) : Follower (claim s l) := by
  refine (follower_controlNow s).bind fun c => ?_
  split
  · exact follower_pure _
  · refine (follower_onControl s fun _ _ _ h => leads_tryClaim h).bind fun b => ?_
    split <;> exact follower_pure _

theorem follower_publish (s : SlotId) (v : Value) : Follower (publish s v) :=
  (follower_writeObject _ _).bind fun _ => (follower_onControl s fun _ _ _ h => leads_publish h).bind fun _ =>
    follower_record _

theorem follower_performWith (id : Int32) (s : SlotId) (a : Action) : Follower (performWith tearDown id s a) := by
  cases a with
  | place t =>
    refine (follower_claim s t.layout).bind fun r => ?_
    cases r with
    | error e => exact follower_record _
    | ok _ =>
      exact (follower_recordAll _).bind fun _ => (follower_publish s _).bind fun _ => follower_record _
  | tryClaim => exact (follower_onControl s fun _ _ _ h => leads_tryClaim h).map _
  | publish t => exact follower_onControl s fun _ _ _ h => leads_publish h
  | abandon => exact follower_onControl s fun _ _ _ h => leads_abandon h
  | teardown => exact follower_tearDown s
  | addReference => exact follower_addReference s
  | dropReference => exact follower_dropWith s
  | raise => exact follower_throw _

theorem follower_shareNext (v : Value) : Follower (shareNext v) := by
  unfold shareNext
  split
  · split
    · exact follower_addReference _
    · exact follower_pure ()
  · exact follower_pure ()

theorem follower_transfer (t : Transfer) (byCopy : Bool) : Follower (transfer t byCopy) := by
  refine (follower_recordAll _).bind fun _ => ?_
  split
  · split
    · exact (follower_recordAll _).bind fun _ => follower_throw _
    · exact follower_shareNext _
  · exact follower_pure ()

theorem follower_moveValue (v : Value) : Follower (moveValue v) := (follower_transfer _ _).bind fun _ => follower_pure _

theorem follower_copyValue (v : Value) : Follower (copyValue v) := (follower_transfer _ _).bind fun _ => follower_pure _

theorem follower_buildFresh (s : SlotId) (v : Value) : Follower (buildFresh s v) := by
  refine (follower_recordAll _).bind fun _ => ?_
  split
  · exact (follower_recordAll _).bind fun _ => follower_throw _
  · split
    · refine (follower_controlNow s).bind fun _ => (follower_record _).bind fun _ => ?_
      exact follower_forM (follower_performWith _ s) _
    · exact follower_pure ()

theorem follower_build (s : SlotId) (o : Origin) : Follower (build s o) := by
  cases o with
  | arguments seed => exact (follower_buildFresh s _).bind fun _ => follower_pure _
  | moved seed => exact (follower_moveValue _).bind fun _ => follower_pure _
  | copied seed => exact (follower_copyValue _).bind fun _ => follower_pure _

/-- A construction that throws gives the slot back, which is a call of the block too. -/
theorem Follower.givingBack {a : Act α} (ha : Follower a) (s : SlotId) : Follower (givingBack s a) := by
  intro w hd
  have h := ha w hd
  unfold Tracked Ends SlotHandles.givingBack at *
  cases e : a w with
  | ok x u =>
    rw [e] at h
    exact h
  | error f u =>
    rw [e] at h
    cases f with
    | violation v => exact .inl ⟨v, rfl⟩
    | nullAccess => exact h
    | exception t =>
      obtain ⟨v, hv⟩ | hu := h
      · cases hv
      have habandon : Follower (onControl s ControlBlock.abandon) := follower_onControl s fun _ _ _ h => leads_abandon h
      change Ends (do onControl s ControlBlock.abandon; raise t : Act α) u _ _
      rw [ends_bind]
      refine Ends.mono (habandon u (distinct_of_keys hu.keys hd)) ?_ fun _ _ h => h.imp id hu.trans
      exact fun _ _ h => .inr (hu.trans h.enters)

theorem follower_placeValue (s : SlotId) (o : Origin) : Follower (placeValue s o) := by
  refine (follower_claim _ _).bind fun r => ?_
  cases r with
  | error e => exact follower_pure _
  | ok _ =>
    refine ((follower_build s o).givingBack s).bind fun x => ?_
    exact (follower_publish _ _).bind fun _ => follower_pure _

theorem follower_adopting (family : Family) (elem : Ty) (s : SlotId) (ref : Referent) :
    Follower (adopting family elem s ref) := by
  exact (follower_controlNow s).bind fun c => follower_ite ((follower_throw _).bind fun _ => follower_pure _)
    (follower_pure _)

theorem follower_make (family : Family) (elem : Ty) (s : SlotId) (o : Origin) : Follower (make family elem s o) := by
  refine (follower_placeValue s o).bind fun r => ?_
  cases r with
  | error e => exact follower_pure _
  | ok rest => exact (follower_adopting _ _ _ _).bind fun _ => follower_pure _

theorem follower_makeOrThrow (family : Family) (elem : Ty) (s : SlotId) (o : Origin) :
    Follower (makeOrThrow family elem s o) := by
  refine (follower_make family elem s o).bind fun r => ?_
  cases r with
  | error e => exact follower_throw _
  | ok m => exact follower_pure _

/-! ### Handles -/

theorem follower_moveHandle (elem : Ty) (p : Holder) : Follower (moveHandle elem p) :=
  (follower_readHandle p).bind fun _ => (follower_writeHandle p _).bind fun _ => follower_pure _

theorem follower_countShared (h : Handle) : Follower (countShared h) := by
  unfold countShared
  split
  · exact follower_addReference _
  · exact follower_pure ()

theorem follower_copyHandle (elem : Ty) (p : Holder) : Follower (copyHandle elem p) := by
  rw [copyHandle_eq]
  exact (follower_readHandle p).bind fun h => (follower_countShared h).bind fun _ => follower_pure _

theorem follower_resetHandle (p : Holder) : Follower (resetHandle p) := by
  refine (follower_readHandle p).bind fun h => ?_
  split
  · exact follower_pure ()
  · exact (follower_writeHandle p _).bind fun _ => follower_release _

theorem follower_assignByMove (target source : Holder) : Follower (assignByMove target source) := by
  unfold assignByMove
  split
  · refine (follower_readHandle target).bind fun old => ?_
    split
    · refine (follower_resetHandle target).bind fun _ => (follower_moveHandle _ source).bind fun new => ?_
      exact follower_writeHandle target new
    · refine (follower_moveHandle _ source).bind fun new => (follower_release old).bind fun _ => ?_
      exact follower_writeHandle target new
  · exact follower_pure ()

theorem follower_assignByCopy (target source : Holder) : Follower (assignByCopy target source) := by
  rw [assignByCopy_eq]
  refine (follower_readHandle source).bind fun h => (follower_countShared h).bind fun _ => ?_
  refine (follower_readHandle target).bind fun old => (follower_release old).bind fun _ => ?_
  exact (follower_readHandle source).bind fun new => follower_writeHandle target _

theorem follower_swapHandles (p q : Holder) : Follower (swapHandles p q) :=
  (follower_readHandle p).bind fun a => (follower_readHandle q).bind fun b =>
    (follower_writeHandle p b).bind fun _ => follower_writeHandle q a

theorem follower_elementOf (h : Handle) : Follower (elementOf h) := by
  unfold elementOf
  split
  · exact follower_throw _
  · refine follower_get.bind fun w => ?_
    split
    · exact follower_pure _
    · exact follower_throw _

theorem follower_takeValue (p : Holder) : Follower (takeValue p) := by
  have hreset : ∀ v : Value, Follower (do resetHandle p; return v) := fun v =>
    (follower_resetHandle p).bind fun _ => follower_pure v
  refine (follower_readHandle p).bind fun h => ?_
  cases h.slot with
  | none => exact follower_throw _
  | some s =>
    have htake : ∀ rest : Transfer → Act Value, (∀ t, Follower (rest t)) → Follower (do
        if !(← controlNow s).holds h.elem then violate .takingSlice
        let v ← elementOf h
        let t ← if h.elem.quals.isConst then copyValue v else moveValue v
        rest t) := by
      intro rest hrest
      have htransfer : Follower (do
          let v ← elementOf h
          let t ← if h.elem.quals.isConst then copyValue v else moveValue v
          rest t) := by
        refine (follower_elementOf h).bind fun v => ?_
        exact follower_ite ((follower_copyValue v).bind hrest) ((follower_moveValue v).bind hrest)
      refine (follower_controlNow s).bind fun c => ?_
      exact follower_ite ((follower_throw _).bind fun _ => htransfer) htransfer
    cases h.ref.address with
    | none => exact htake _ fun t => hreset t.value
    | some a => exact htake _ fun t => (follower_writeObject a.region t.source).bind fun _ => hreset t.value

theorem follower_locateValue (s : SlotId) (t : Ty) : Follower (locateValue s t) := by
  exact (follower_controlNow s).bind fun c => follower_ite ((follower_throw _).bind fun _ => follower_pure _)
    (follower_pure _)

theorem follower_castByMove (elem : Ty) (p : Holder) : Follower (castByMove elem p) := by
  refine (follower_readHandle p).bind fun h => ?_
  split
  · exact follower_pure _
  refine (follower_controlNow _).bind fun c => ?_
  split
  · exact follower_pure _
  · refine (follower_writeHandle p _).bind fun _ => (follower_locateValue _ _).bind fun a => ?_
    exact follower_adopting _ _ _ _

theorem follower_castByCopy (elem : Ty) (p : Holder) : Follower (castByCopy elem p) := by
  refine (follower_readHandle p).bind fun h => ?_
  split
  · exact follower_pure _
  refine (follower_controlNow _).bind fun c => ?_
  split
  · exact follower_pure _
  · refine (follower_addReference _).bind fun _ => (follower_locateValue _ _).bind fun a => ?_
    exact follower_adopting _ _ _ _

/-! ### Looking through handles -/

theorem follower_checkAccess (h : Handle) : Follower (checkAccess h) := by
  unfold checkAccess
  cases h.slot with
  | none => exact follower_throw _
  | some s =>
    have hstate : ∀ rest : ControlBlock → Act Unit, (∀ c, Follower (rest c)) → Follower (do
        let c ← controlNow s
        if c.state ≠ .occupied then violate (.dereferencingDead h.family)
        rest c) := by
      intro rest hrest
      refine (follower_controlNow s).bind fun c => ?_
      exact follower_ite ((follower_throw _).bind fun _ => hrest c) (hrest c)
    cases h.ref with
    | view v =>
      have htype : ∀ c : ControlBlock,
          Follower (if v.type ≠ c.heldType then violate .foreignView else pure () : Act Unit) := fun c =>
        follower_ite (follower_throw _) (follower_pure ())
      exact hstate _ fun c => follower_ite ((follower_throw _).bind fun _ => htype c) (htype c)
    | object target => exact hstate _ fun _ => follower_pure ()
    | items first extent => exact hstate _ fun _ => follower_pure ()

theorem follower_dereference (h : Handle) : Follower (dereference h) :=
  (follower_checkAccess h).bind fun _ => follower_elementOf h

theorem follower_dereferenceView (h : Handle) : Follower (dereferenceView h) := by
  refine (follower_checkAccess h).bind fun _ => ?_
  cases h.ref <;> exact follower_pure _

theorem follower_lookThrough (h : Handle) : Follower (lookThrough h) :=
  follower_ite ((follower_dereferenceView h).bind fun _ => follower_pure _)
    ((follower_dereference h).bind fun _ => follower_pure _)

theorem follower_changeThrough (h : Handle) (f : Value → Value) : Follower (changeThrough h f) := by
  refine (follower_dereference h).bind fun v => ?_
  cases h.ref.address with
  | none => exact follower_pure ()
  | some a => exact follower_writeObject _ _

theorem follower_checkIndex (h : Handle) (i : Nat) : Follower (checkIndex h i) :=
  (follower_checkAccess h).bind fun _ => follower_ite (follower_throw _) (follower_pure ())

theorem follower_readItem (h : Handle) (i : Nat) : Follower (readItem h i) :=
  (follower_checkIndex h i).bind fun _ => (follower_elementOf h).bind fun _ => follower_pure _

theorem follower_writeItem (h : Handle) (i : Nat) (n : Int32) : Follower (writeItem h i n) := by
  refine (follower_checkIndex h i).bind fun _ => (follower_elementOf h).bind fun v => ?_
  cases h.ref.address with
  | none => exact follower_pure ()
  | some a => exact follower_writeObject _ _

theorem follower_callThrough (v : View) (m : Method) : Follower (callThrough v m) := by
  unfold callThrough
  cases v.table with
  | none => exact follower_throw _
  | some t =>
    cases v.data with
    | none => exact follower_throw _
    | some a =>
      refine follower_get.bind fun w => (follower_writeObject _ _).bind fun _ => ?_
      cases ((w.objectAs a.region t).call m).result with
      | ok d => exact follower_pure d
      | error thrown => exact follower_throw _

/-! ### Steps with handles -/

theorem follower_destroyHandle (p : Holder) : Follower (destroyHandle p) := by
  have hremove : Follower (modify fun w => { w with held := w.held.remove p }) :=
    follower_modify fun _ => follows_of_slots rfl
  exact (follower_readHandle p).bind fun h => hremove.bind fun _ => follower_release h

theorem follower_destroyNamed (name : String) : Follower (destroyNamed name) := by
  have hremove : Follower (modify fun w => { w with values := w.values.remove name }) :=
    follower_modify fun _ => follows_of_slots rfl
  refine follower_get.bind fun w => ?_
  cases w.values.find? name with
  | none => exact follower_pure ()
  | some v => exact hremove.bind fun _ => follower_destroyValue v

theorem follower_keepHandle (into : Holder) (h : Handle) : Follower (keepHandle into h) :=
  (follower_writeHandle into h).bind fun _ => follower_pure _

/-- A step with handles leads every control block along a course, whether it could be written down or not. -/
theorem follower_run (st : HandleStep) : Follower st.run := by
  cases st with
  | empty into family elem => exact follower_keepHandle _ _
  | make into s family elem origin throwing =>
    unfold HandleStep.run
    refine follower_ite (((follower_makeOrThrow _ _ _ _).map _).bind fun made => ?_)
      ((follower_make _ _ _ _).bind fun made => ?_)
    all_goals
      cases made with
      | error e => exact follower_pure _
      | ok m => exact follower_keepHandle _ _
  | constructByMove into elem source => exact (follower_moveHandle _ _).bind fun _ => follower_keepHandle _ _
  | constructByCopy into elem source => exact (follower_copyHandle _ _).bind fun _ => follower_keepHandle _ _
  | assignByMove target source => exact (follower_assignByMove _ _).bind fun _ => follower_pure _
  | assignByCopy target source => exact (follower_assignByCopy _ _).bind fun _ => follower_pure _
  | reset p => exact (follower_resetHandle p).bind fun _ => follower_pure _
  | destroy p => exact (follower_destroyHandle p).bind fun _ => follower_pure _
  | swap p q => exact (follower_swapHandles p q).bind fun _ => follower_pure _
  | castByMove into elem source => exact (follower_castByMove _ _).bind fun _ => follower_keepHandle _ _
  | castByCopy into elem source => exact (follower_castByCopy _ _).bind fun _ => follower_keepHandle _ _
  | take into p =>
    exact (follower_takeValue p).bind fun _ => (follower_writeObject _ _).bind fun _ => follower_pure _
  | destroyTaken name => exact (follower_destroyNamed name).bind fun _ => follower_pure _
  | dereference p => exact (follower_readHandle p).bind fun h => follower_lookThrough h
  | change p f =>
    exact (follower_readHandle p).bind fun h => (follower_changeThrough h f).bind fun _ => follower_pure _
  | readItem p i => exact (follower_readHandle p).bind fun h => (follower_readItem h i).bind fun _ => follower_pure _
  | writeItem p i n =>
    exact (follower_readHandle p).bind fun h => (follower_writeItem h i n).bind fun _ => follower_pure _
  | call p m =>
    exact (follower_readHandle p).bind fun h => (follower_dereferenceView h).bind fun v =>
      (follower_callThrough v m).bind fun _ => follower_pure _

end SlotHandles
