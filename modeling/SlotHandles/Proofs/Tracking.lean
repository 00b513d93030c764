import SlotHandles.Proofs.Calls
import SlotHandles.Proofs.Cascade

/-!
# Programs as courses of their slots

Whatever a program does, each control block is only ever called, by one of its public calls, and every destructor
that is started returns before the teardown does.  So a program that reports no violation leads every block along a
course of calls (`World.Follows`), and what holds after all courses holds of every slot after all programs.

This is shown for every action by itself, in any world with distinct slots (`Tracked`, `Follower`).  An action that
fails in another way than by a report leaves the blocks somewhere on their courses (`World.Enters`), possibly in the
middle of a teardown.
-/

namespace SlotHandles

/-! ### Parts of a course -/

namespace ControlBlock.Course

variable {b b' b'' : ControlBlock}

theorem performAll_append {c d c' : Course} {before after : List Call} (h : performAll before c = .ok () d)
    (h' : performAll after d = .ok () c') : performAll (before ++ after) c = .ok () c' := by
  induction before generalizing c with
  | nil =>
    cases h
    exact h'
  | cons call rest ih =>
    obtain ⟨_, e, he, hrest⟩ := bind_eq_ok.mp h
    exact bind_eq_ok.mpr ⟨(), e, he, ih hrest⟩

theorem performAll_singleton {c c' : Course} {call : Call} (h : perform call c = .ok () c') :
    performAll [call] c = .ok () c' := bind_eq_ok.mpr ⟨(), c', h, rfl⟩

/-- Some calls lead from one block to the other. -/
def Enters (b b' : ControlBlock) : Prop :=
  ∃ calls, ∀ c : Course, c.block = b → ∃ c', performAll calls c = .ok () c' ∧ c'.block = b'

/-- Some calls lead from one block to the other, and all destructors they start return. -/
def Leads (b b' : ControlBlock) : Prop :=
  ∃ calls, ∀ c : Course, c.block = b → ∃ c', performAll calls c = .ok () c' ∧ c'.block = b' ∧ c'.running = c.running

theorem Leads.refl (b : ControlBlock) : Leads b b := ⟨[], fun c hc => ⟨c, rfl, hc, rfl⟩⟩

theorem Leads.trans (h : Leads b b') (h' : Leads b' b'') : Leads b b'' := by
  obtain ⟨before, h⟩ := h
  obtain ⟨after, h'⟩ := h'
  refine ⟨before ++ after, ?_⟩
  intro c hc
  obtain ⟨d, hd, hdb, hdr⟩ := h c hc
  obtain ⟨e, he, heb, her⟩ := h' d hdb
  exact ⟨e, performAll_append hd he, heb, her.trans hdr⟩

theorem Leads.enters (h : Leads b b') : Enters b b' := by
  obtain ⟨calls, h⟩ := h
  refine ⟨calls, ?_⟩
  intro c hc
  obtain ⟨d, hd, hdb, -⟩ := h c hc
  exact ⟨d, hd, hdb⟩

theorem Enters.trans (h : Enters b b') (h' : Enters b' b'') : Enters b b'' := by
  obtain ⟨before, h⟩ := h
  obtain ⟨after, h'⟩ := h'
  refine ⟨before ++ after, ?_⟩
  intro c hc
  obtain ⟨d, hd, hdb⟩ := h c hc
  obtain ⟨e, he, heb⟩ := h' d hdb
  exact ⟨e, performAll_append hd he, heb⟩

/-- A call that starts no destructor leads where the transition does. -/
theorem leads_of_perform (call : Call)
    (h : ∀ c : Course, c.block = b → ∃ c', perform call c = .ok () c' ∧ c'.block = b' ∧ c'.running = c.running) :
    Leads b b' := by
  refine ⟨[call], ?_⟩
  intro c hc
  obtain ⟨d, hd, hdb, hdr⟩ := h c hc
  exact ⟨d, performAll_singleton hd, hdb, hdr⟩

/-- A transition that is a call by itself. -/
theorem leads_of_onBlock {α : Type} {op : ControlBlock.Op α} {a : α} (call : Call)
    (hcall : ∀ c d, onBlock op c = .ok a d → perform call c = .ok () d) (h : op b = .ok a b') : Leads b b' := by
  refine leads_of_perform call ?_
  rintro c rfl
  exact ⟨{ c with block := b' }, hcall c _ (onBlock_eq_ok.mpr ⟨b', h, rfl⟩), rfl, rfl⟩

theorem leads_tryClaim {claimed : Bool} (h : ControlBlock.tryClaim b = .ok claimed b') : Leads b b' :=
  leads_of_onBlock .tryClaim (fun _ d hd => bind_eq_ok.mpr ⟨claimed, d, hd, rfl⟩) h

theorem leads_publish {t : StoredType} (h : ControlBlock.publish t b = .ok () b') : Leads b b' := by
  refine leads_of_perform (.publish t) ?_
  rintro c rfl
  exact ⟨_, bind_eq_ok.mpr ⟨(), _, onBlock_eq_ok.mpr ⟨b', h, rfl⟩, rfl⟩, rfl, rfl⟩

theorem leads_abandon (h : ControlBlock.abandon b = .ok () b') : Leads b b' :=
  leads_of_onBlock .abandon (fun _ _ => id) h

/-- A drop of a reference that is not the last one. -/
theorem leads_dropReference (h0 : b.count ≠ 0) (h1 : b.count ≠ 1) : Leads b { b with count := b.count - 1 } := by
  refine leads_of_perform .dropReference ?_
  rintro c rfl
  refine ⟨{ c with block := { c.block with count := c.block.count - 1 } }, bind_eq_ok.mpr ⟨false, _, ?_, rfl⟩, rfl, rfl⟩
  refine onBlock_eq_ok.mpr ⟨_, ?_, rfl⟩
  rw [dropReference_apply, if_neg h0, decide_eq_false h1]

theorem leads_addReference (h : ControlBlock.addReference b = .ok () b') : Leads b b' :=
  leads_of_onBlock .addReference (fun _ _ => id) h

/-- The call starts the destructor of a value of type `t`. -/
def Starts (call : Call) (t : StoredType) (b b' : ControlBlock) : Prop :=
  ∀ c : Course, c.block = b → ∃ c', perform call c = .ok () c' ∧ c'.block = b' ∧ c'.running = t :: c.running

theorem Starts.enters {call : Call} {t : StoredType} (h : Starts call t b b') (h' : Enters b' b'') : Enters b b'' := by
  refine Enters.trans ⟨[call], ?_⟩ h'
  intro c hc
  obtain ⟨d, hd, hdb, -⟩ := h c hc
  exact ⟨d, performAll_singleton hd, hdb⟩

/-- When the destructor returns, the slot is given back. -/
theorem Starts.leads {call : Call} {t : StoredType} (h : Starts call t b b') (h' : Leads b' b'') :
    Leads b { b'' with state := .empty } := by
  obtain ⟨inside, h'⟩ := h'
  refine ⟨call :: (inside ++ [.returns]), ?_⟩
  intro c hc
  obtain ⟨d, hd, hdb, hdr⟩ := h c hc
  obtain ⟨e, he, heb, her⟩ := h' d hdb
  have hreturn : perform .returns e =
      .ok () { e with block := { e.block with state := .empty }, running := c.running } := by
    refine bind_eq_ok.mpr ⟨e, e, rfl, ?_⟩
    rw [her, hdr]
    rfl
  refine ⟨_, bind_eq_ok.mpr ⟨(), d, hd, performAll_append he (performAll_singleton hreturn)⟩, ?_, rfl⟩
  rw [heb]

theorem tearDown_of_some {c : Course} {t : StoredType} (counted : Bool) (ho : c.block.state = .occupied)
    (ht : c.block.type = some t) :
    tearDown counted c = .ok () { c with
      block := { c.block with state := .tearingDown, type := none }, running := t :: c.running,
      endings := c.endings ++ [⟨t, counted⟩] } := by
  have hbegin : onBlock beginTeardown c =
      .ok (some t) { c with block := { c.block with state := .tearingDown, type := none } } := by
    refine onBlock_eq_ok.mpr ⟨_, ?_, rfl⟩
    rw [beginTeardown_apply, if_pos ho, ht]
  exact bind_eq_ok.mpr ⟨_, _, hbegin, rfl⟩

theorem tearDown_of_none {c : Course} (counted : Bool) (ho : c.block.state = .occupied) (ht : c.block.type = none) :
    tearDown counted c = .ok () { c with block := { c.block with state := .empty, type := none } } := by
  have hbegin : onBlock beginTeardown c =
      .ok none { c with block := { c.block with state := .tearingDown, type := none } } := by
    refine onBlock_eq_ok.mpr ⟨_, ?_, rfl⟩
    rw [beginTeardown_apply, if_pos ho, ht]
  exact bind_eq_ok.mpr ⟨_, _, hbegin, rfl⟩

/-- The call is a teardown, once the count has been set. -/
def Tears (call : Call) (b : ControlBlock) (n : UInt32) : Prop :=
  ∃ counted, ∀ c : Course, c.block = b → perform call c = tearDown counted { c with block := { b with count := n } }

theorem tears_teardown (b : ControlBlock) : Tears .teardown b b.count := by
  refine ⟨false, ?_⟩
  rintro c rfl
  rfl

theorem tears_dropReference (h : b.count = 1) : Tears .dropReference b 0 := by
  refine ⟨true, ?_⟩
  rintro c rfl
  have hdrop : onBlock ControlBlock.dropReference c = .ok true { c with block := { c.block with count := 0 } } := by
    refine onBlock_eq_ok.mpr ⟨_, ?_, rfl⟩
    rw [dropReference_apply, h]
    rfl
  change EStateM.bind _ _ c = _
  unfold EStateM.bind
  rw [hdrop]
  rfl

theorem Tears.starts {call : Call} {t : StoredType} {n : UInt32} (h : Tears call b n) (ho : b.state = .occupied)
    (ht : b.type = some t) : Starts call t b { b with state := .tearingDown, count := n, type := none } := by
  obtain ⟨counted, h⟩ := h
  intro c hc
  refine ⟨_, (h c hc).trans (tearDown_of_some counted ho ht), rfl, rfl⟩

theorem Tears.leads {call : Call} {n : UInt32} (h : Tears call b n) (ho : b.state = .occupied) (ht : b.type = none) :
    Leads b { b with state := .empty, count := n, type := none } := by
  obtain ⟨counted, h⟩ := h
  refine leads_of_perform call ?_
  intro c hc
  exact ⟨_, (h c hc).trans (tearDown_of_none counted ho ht), rfl, rfl⟩

end ControlBlock.Course

/-! ### All blocks of a world -/

open World ControlBlock.Course

variable {w w' u : World} {s : SlotId} {α β : Type}

/-- The blocks of all slots were led from one world to the other. -/
structure World.Follows (w w' : World) : Prop where
  keys : w'.slots.map Prod.fst = w.slots.map Prod.fst
  leads : ∀ s, (w.slots.find? s).isSome → Leads (w.controlOf s) (w'.controlOf s)

/-- The blocks of all slots were led from one world to the other, but some destructor may not have returned. -/
structure World.Enters (w w' : World) : Prop where
  keys : w'.slots.map Prod.fst = w.slots.map Prod.fst
  enters : ∀ s, (w.slots.find? s).isSome → ControlBlock.Course.Enters (w.controlOf s) (w'.controlOf s)

/-- The slots exist in both worlds. -/
theorem isSome_find?_of_keys (h : w'.slots.map Prod.fst = w.slots.map Prod.fst) (s : SlotId) :
    (w'.slots.find? s).isSome = (w.slots.find? s).isSome := by
  rw [Bool.eq_iff_iff, ← not_iff_not]
  simp only [Bool.not_eq_true, Option.isSome_eq_false_iff, Option.isNone_iff_eq_none, Table.find?_eq_none_iff, h]

namespace World

theorem distinct_of_keys (h : w'.slots.map Prod.fst = w.slots.map Prod.fst) (hd : w.slots.Distinct) :
    w'.slots.Distinct := by
  unfold Table.Distinct
  rwa [h]

theorem keys_setControl (w : World) (s : SlotId) (c : ControlBlock) :
    (w.setControl s c).slots.map Prod.fst = w.slots.map Prod.fst := by
  unfold setControl
  dsimp only
  exact Table.map_fst_adjust w.slots s _

theorem keys_setStorage (w : World) (s : SlotId) (v : Value) :
    (w.setStorage s v).slots.map Prod.fst = w.slots.map Prod.fst := by
  unfold setStorage
  dsimp only
  exact Table.map_fst_adjust w.slots s _

theorem Follows.refl (w : World) : w.Follows w := ⟨rfl, fun _ _ => .refl _⟩

theorem Follows.trans (h : w.Follows u) (h' : u.Follows w') : w.Follows w' := by
  refine ⟨h'.keys.trans h.keys, ?_⟩
  intro s hs
  exact (h.leads s hs).trans (h'.leads s (by rwa [isSome_find?_of_keys h.keys]))

theorem Follows.enters (h : w.Follows w') : w.Enters w' := ⟨h.keys, fun s hs => (h.leads s hs).enters⟩

theorem Enters.trans (h : w.Enters u) (h' : u.Enters w') : w.Enters w' := by
  refine ⟨h'.keys.trans h.keys, ?_⟩
  intro s hs
  exact (h.enters s hs).trans (h'.enters s (by rwa [isSome_find?_of_keys h.keys]))

/-- What leaves the blocks alone is no call of any of them. -/
theorem follows_of_controlOf (hk : w'.slots.map Prod.fst = w.slots.map Prod.fst)
    (hc : ∀ s, w'.controlOf s = w.controlOf s) : w.Follows w' := by
  refine ⟨hk, ?_⟩
  intro s _
  rw [hc]
  exact .refl _

theorem follows_of_slots (h : w'.slots = w.slots) : w.Follows w' :=
  follows_of_controlOf (by rw [h]) fun s => by rw [controlOf, h, controlOf]

theorem follows_setControl {c : ControlBlock} (h : Leads (w.controlOf s) c) : w.Follows (w.setControl s c) := by
  refine ⟨keys_setControl .., ?_⟩
  intro x hx
  by_cases hxs : x = s
  · subst hxs
    rwa [controlOf_setControl_self _ hx]
  · rw [controlOf_setControl_of_ne _ _ hxs]
    exact .refl _

theorem follows_setStorage (w : World) (s : SlotId) (v : Value) : w.Follows (w.setStorage s v) :=
  follows_of_controlOf (keys_setStorage ..) fun t => controlOf_setStorage w s t v

end World

/-- The action leads all blocks as the relation says, is reported, or fails in another way in the middle. -/
def Tracked (R : World → World → Prop) (a : Act α) (w : World) : Prop :=
  Ends a w (fun _ w' => R w w') (fun f w' => (∃ v, f = .violation v) ∨ w.Enters w')

/-- The relation composes and tells where the blocks were led. -/
structure Tracking (R : World → World → Prop) : Prop where
  refl : ∀ w, R w w
  trans : ∀ {w u w'}, R w u → R u w' → R w w'
  follows : ∀ {w w'}, R w w' → w.Follows w'

theorem tracking_follows : Tracking World.Follows := ⟨.refl, .trans, id⟩

section

variable {R : World → World → Prop} {a : Act α}

theorem tracked_of_ok {x : α} (e : a w = .ok x w') (h : R w w') : Tracked R a w := (ends_of_ok e).mpr h

theorem tracked_of_violation {v : Violation} (e : a w = .error (.violation v) w') : Tracked R a w := by
  rw [Tracked, ends_of_error e]
  exact .inl ⟨v, rfl⟩

theorem tracked_throw (f : Failure) (w : World) : Tracked R (throw f : Act α) w := .inr (World.Follows.refl w).enters

/-- A transition of one block is reported, or leads that block alone. -/
theorem tracked_onControl {op : ControlBlock.Op α}
    (h : ∀ x c, op (w.controlOf s) = .ok x c → R w (w.setControl s c)) : Tracked R (onControl s op) w := by
  cases e : op (w.controlOf s) with
  | ok x c => exact tracked_of_ok (onControl_ok e) (h x c e)
  | error v c => exact tracked_of_violation (onControl_error e)

theorem Tracked.bind {f : α → Act β} (hR : Tracking R) (ha : Tracked R a w)
    (hf : ∀ x u, R w u → Tracked R (f x) u) : Tracked R (a >>= f) w := by
  unfold Tracked
  rw [ends_bind]
  refine Ends.mono ha ?_ fun _ _ h => h
  intro x u hu
  exact (hf x u hu).mono (fun _ _ h => hR.trans hu h) fun _ _ h => h.imp id fun h => (hR.follows hu).enters.trans h

end

/-! ### Inside of a teardown -/

/-- The blocks were led on while some slot is being torn down: no slot has become live, and no slot that is being torn
down was given back. -/
structure World.Winds (w w' : World) : Prop where
  follows : w.Follows w'
  live : w'.liveSlots ≤ w.liveSlots
  claimed : ∀ s, (w.controlOf s).state = .tearingDown → (w'.controlOf s).state = .tearingDown

namespace World

theorem tracking_winds : Tracking Winds where
  refl w := ⟨.refl w, le_rfl, fun _ h => h⟩
  trans h h' := ⟨h.follows.trans h'.follows, h'.live.trans h.live, fun s hs => h'.claimed s (h.claimed s hs)⟩
  follows h := h.follows

theorem winds_of_slots (h : w'.slots = w.slots) : w.Winds w' := by
  refine ⟨follows_of_slots h, ?_, ?_⟩
  · unfold liveSlots
    rw [h]
  · intro s hs
    rwa [controlOf, h, ← controlOf]

theorem winds_setStorage (hd : w.slots.Distinct) (s : SlotId) (v : Value) : w.Winds (w.setStorage s v) := by
  refine ⟨follows_setStorage w s v, (liveSlots_setStorage hd s v).le, ?_⟩
  intro t ht
  rwa [controlOf_setStorage]

/-- A call that leaves the state of its slot. -/
theorem winds_setControl {c : ControlBlock} (hd : w.slots.Distinct) (hx : (w.slots.find? s).isSome)
    (h : Leads (w.controlOf s) c) (hc : c.state = (w.controlOf s).state) : w.Winds (w.setControl s c) := by
  refine ⟨follows_setControl h, (liveSlots_setControl_of_state hd hx hc).le, ?_⟩
  intro t ht
  by_cases hts : t = s
  · subst hts
    rwa [controlOf_setControl_self _ hx, hc]
  · rwa [controlOf_setControl_of_ne _ _ hts]

end World

/-- Among at most `n` live slots, the action goes on inside of a teardown. -/
def Winding (n : Nat) (a : Act α) : Prop := ∀ w : World, w.slots.Distinct → w.liveSlots ≤ n → Tracked World.Winds a w

section

variable {n : Nat} {td : SlotId → Act Unit} (htd : ∀ s, Winding n (td s)) (hdrop : ∀ s, Winding n (dropWith td s))

include htd hdrop

theorem winding_releaseWith (h : Handle) : Winding n (releaseWith td h) := by
  intro w hd hn
  unfold releaseWith
  cases h.slot with
  | none => exact tracking_winds.refl w
  | some s =>
    cases h.family with
    | unique => exact htd s w hd hn
    | shared => exact hdrop s w hd hn

theorem winding_destroyWith (v : Value) : Winding n (destroyWith td v) := by
  intro w hd hn
  rw [show destroyWith td v = (recordAll v.parting >>= fun _ => releaseNextWith td v) from rfl]
  refine Tracked.bind tracking_winds (tracked_of_ok (recordAll_apply ..) (winds_of_slots rfl)) ?_
  intro _ u hu
  unfold releaseNextWith
  cases v.next? with
  | none => exact tracking_winds.refl u
  | some h => exact winding_releaseWith htd hdrop h u (distinct_of_keys hu.follows.keys hd) (hu.live.trans hn)

end

/-- Among at most `n` live slots, the action goes on inside of the teardown of the slot. -/
def WindingIn (n : Nat) (s : SlotId) (a : Act α) : Prop :=
  ∀ w : World, w.slots.Distinct → w.liveSlots ≤ n → (w.controlOf s).state = .tearingDown → Tracked World.Winds a w

section

variable {n : Nat}

theorem Winding.windingIn {a : Act α} (h : Winding n a) (s : SlotId) : WindingIn n s a := fun w hd hn _ => h w hd hn

theorem WindingIn.bind {a : Act α} {f : α → Act β} (ha : WindingIn n s a) (hf : ∀ x, WindingIn n s (f x)) :
    WindingIn n s (a >>= f) := by
  intro w hd hn hs
  refine Tracked.bind tracking_winds (ha w hd hn hs) ?_
  intro x u hu
  exact hf x u (distinct_of_keys hu.follows.keys hd) (hu.live.trans hn) (hu.claimed s hs)

theorem windingIn_record (e : Event) : WindingIn n s (record e) := fun w _ _ _ =>
  tracked_of_ok (record_apply e w) (winds_of_slots rfl)

theorem windingIn_forM {f : β → Act Unit} (hf : ∀ x, WindingIn n s (f x)) (l : List β) : WindingIn n s (l.forM f) := by
  induction l with
  | nil => exact fun w _ _ _ => tracking_winds.refl w
  | cons x l ih => exact (hf x).bind fun _ => ih

variable {td : SlotId → Act Unit} (htd : ∀ s, Winding n (td s)) (hdrop : ∀ s, Winding n (dropWith td s))

include htd hdrop

/-- What a value does to its own slot while it is destroyed.  The slot is claimed, so nothing can be built in it. -/
theorem windingIn_performWith (id : Int32) (a : Action) : WindingIn n s (performWith td id s a) := by
  intro w hd hn hs
  have hx : (w.slots.find? s).isSome := find?_isSome_of_state (by rw [hs]; decide)
  have hclaim : onControl s ControlBlock.tryClaim w = .ok false w := by
    rw [onControl_ok (x := false) (c := w.controlOf s), setControl_controlOf hd]
    rw [ControlBlock.tryClaim_apply, if_neg (by rw [hs]; decide)]
  cases a with
  | place t =>
    have hrefuse : ∃ e, claim s t.layout w = .ok (.error e) w := by
      unfold claim
      rw [bind_of_ok (controlNow_apply ..)]
      split
      · exact ⟨_, rfl⟩
      · rw [bind_of_ok hclaim]
        exact ⟨_, rfl⟩
    obtain ⟨e, he⟩ := hrefuse
    have hrun : performWith td id s (.place t) w = .ok () (w.log [.refused e]) := by
      unfold performWith
      dsimp only
      rw [bind_of_ok he]
      rfl
    exact tracked_of_ok hrun (winds_of_slots rfl)
  | tryClaim =>
    have hrun : performWith td id s .tryClaim w = .ok () w := by
      unfold performWith
      exact map_of_ok (f := fun _ => ()) hclaim
    exact tracked_of_ok hrun (tracking_winds.refl w)
  | publish t =>
    refine tracked_onControl fun x c h => ?_
    rw [ControlBlock.publish_apply, if_neg (by rw [hs]; decide)] at h
    cases h
  | abandon =>
    refine tracked_onControl fun x c h => ?_
    rw [ControlBlock.abandon_apply, if_neg (by rw [hs]; decide)] at h
    cases h
  | teardown => exact htd s w hd hn
  | addReference =>
    refine tracked_onControl fun x c h => winds_setControl hd hx (leads_addReference h) ?_
    rw [ControlBlock.addReference_apply] at h
    split at h
    · cases h
    split at h
    · cases h
    · cases h
      rfl
  | dropReference => exact hdrop s w hd hn
  | raise => exact tracked_throw _ w

theorem windingIn_destroyStoredWith (t : StoredType) : WindingIn n s (destroyStoredWith td s t) := by
  have hdestroy : ∀ v : Value, WindingIn n s (destroyWith td v) := fun v =>
    (winding_destroyWith htd hdrop v).windingIn s
  have hget : WindingIn n s (get : Act World) := fun w _ _ _ => tracking_winds.refl w
  unfold destroyStoredWith
  refine (windingIn_record _).bind fun _ => hget.bind fun w => ?_
  dsimp only
  split
  · have hnow : WindingIn n s (controlNow s) := fun w _ _ _ => tracking_winds.refl w
    refine hnow.bind fun c => (windingIn_record _).bind fun _ => ?_
    exact (windingIn_forM (windingIn_performWith htd hdrop _) _).bind fun _ => hdestroy _
  · refine WindingIn.bind (fun w hd _ _ => ?_) fun _ => hdestroy _
    exact tracked_of_ok (writeObject_apply ..) (winds_setStorage hd s _)
  · exact hdestroy _

end

/-! ### Teardowns -/

/-- A slot was torn down: it was claimed, led on inside of its teardown, and given back. -/
theorem World.Winds.vacated {n : UInt32} {t : StoredType} {call : ControlBlock.Call} (hd : w.slots.Distinct)
    (ho : (w.controlOf s).state = .occupied) (ht : (w.controlOf s).type = some t) (hc : Tears call (w.controlOf s) n)
    (h : (w.claimed s n).Winds u) : w.Winds (u.setControl s { u.controlOf s with state := .empty }) := by
  have hx := find?_isSome_of_occupied ho
  have hself : (w.claimed s n).controlOf s = { w.controlOf s with state := .tearingDown, count := n, type := none } :=
    controlOf_setControl_self _ hx
  have hus : (u.controlOf s).state = .tearingDown := h.claimed s (by rw [hself])
  have hother : ∀ x, x ≠ s → (w.claimed s n).controlOf x = w.controlOf x := fun x hxs =>
    controlOf_setControl_of_ne _ _ hxs
  have hkeys : (w.claimed s n).slots.map Prod.fst = w.slots.map Prod.fst := keys_setControl ..
  have hud : u.slots.Distinct := distinct_of_keys (h.follows.keys.trans hkeys) hd
  refine ⟨⟨((keys_setControl ..).trans h.follows.keys).trans hkeys, ?_⟩, ?_, ?_⟩
  · intro x hxx
    have hlead := h.follows.leads x (by rwa [isSome_find?_of_keys hkeys])
    by_cases hxs : x = s
    · subst hxs
      rw [hself] at hlead
      rw [controlOf_setControl_self _ (find?_isSome_of_state (by rw [hus]; decide))]
      exact (hc.starts ho ht).leads hlead
    · rwa [controlOf_setControl_of_ne _ _ hxs, ← hother x hxs]
  · have hidle := liveSlots_setControl_idle (c := { u.controlOf s with state := .empty }) hud (by rw [hus]; decide)
      (by simp)
    have hstrike : (w.claimed s n).liveSlots + 1 = w.liveSlots := liveSlots_strike hd ho (by simp)
    have hlive := h.live
    omega
  · intro x hxt
    have hxs : x ≠ s := by
      rintro rfl
      rw [ho] at hxt
      cases hxt
    rw [controlOf_setControl_of_ne _ _ hxs]
    exact h.claimed x (by rwa [hother x hxs])

theorem World.Enters.claimed {n : UInt32} {t : StoredType} {call : ControlBlock.Call}
    (ho : (w.controlOf s).state = .occupied) (ht : (w.controlOf s).type = some t) (hc : Tears call (w.controlOf s) n)
    (h : (w.claimed s n).Enters u) : w.Enters u := by
  have hkeys : (w.claimed s n).slots.map Prod.fst = w.slots.map Prod.fst := keys_setControl ..
  refine ⟨h.keys.trans hkeys, ?_⟩
  intro x hxx
  have henter := h.enters x (by rwa [isSome_find?_of_keys hkeys])
  by_cases hxs : x = s
  · subst hxs
    rw [World.claimed, controlOf_setControl_self _ hxx] at henter
    exact (hc.starts ho ht).enters henter
  · rwa [World.claimed, controlOf_setControl_of_ne _ _ hxs] at henter

/-- The teardown of an occupied slot, whatever the count was set to before, is tracked from the call on. -/
def TearsWithin (depth : Nat) : Prop :=
  ∀ (w : World) (s : SlotId) (n : UInt32) (call : ControlBlock.Call), w.slots.Distinct → w.liveSlots ≤ depth →
    (w.controlOf s).state = .occupied → Tears call (w.controlOf s) n →
    Ends (tearDownWithin depth s) (w.setControl s { w.controlOf s with count := n }) (fun _ w' => w.Winds w')
      (fun f w' => (∃ v, f = .violation v) ∨ w.Enters w')

theorem TearsWithin.winding {depth : Nat} (h : TearsWithin depth) (s : SlotId) :
    Winding depth (tearDownWithin depth s) := by
  intro w hd hlive
  by_cases ho : (w.controlOf s).state = .occupied
  · have htears := h w s _ _ hd hlive ho (tears_teardown _)
    rwa [setControl_controlOf hd] at htears
  · obtain ⟨w', hrun⟩ := tearDownWithin_idle depth ho
    exact tracked_of_violation hrun

theorem TearsWithin.winding_dropWith {depth : Nat} (h : TearsWithin depth) (s : SlotId) :
    Winding depth (dropWith (tearDownWithin depth) s) := by
  intro w hd hlive
  refine ends_dropWith (fun _ => .inl ⟨_, rfl⟩) (fun h1 => ?_) fun h0 h1 => ?_
  · by_cases ho : (w.controlOf s).state = .occupied
    · rw [h1]
      exact h w s _ _ hd hlive ho (tears_dropReference h1)
    · have hidle := state_setControl_ne_occupied (c := { w.controlOf s with count := (w.controlOf s).count - 1 }) w s ho
      obtain ⟨w', hrun⟩ := tearDownWithin_idle depth hidle
      rw [ends_of_error hrun]
      exact .inl ⟨_, rfl⟩
  · exact winds_setControl hd (find?_isSome_of_count h0) (leads_dropReference h0 h1) rfl

theorem TearsWithin.succ {depth : Nat} (h : TearsWithin depth) : TearsWithin (depth + 1) := by
  intro w s n call hd hlive ho hc
  have hx := find?_isSome_of_occupied ho
  cases ht : (w.controlOf s).type with
  | some t =>
    have hstrike : (w.claimed s n).liveSlots + 1 = w.liveSlots := liveSlots_strike hd ho (by simp)
    have hstate : ((w.claimed s n).controlOf s).state = .tearingDown := congrArg _ (controlOf_setControl_self _ hx)
    have hlive' : (w.claimed s n).liveSlots ≤ depth := by omega
    have hinner := windingIn_destroyStoredWith h.winding h.winding_dropWith t (w.claimed s n)
      (distinct_setControl hd s _) hlive' hstate
    rw [ends_congr (tearDownWithin_succ depth n ho ht), ends_bind]
    refine Ends.mono hinner ?_ fun f u h => h.imp id fun h => h.claimed ho ht hc
    intro _ u hu
    rw [ends_of_ok (onControl_ok (ControlBlock.vacate_apply _))]
    exact hu.vacated hd ho ht hc
  | none =>
    -- no destructor is known, so the slot is given back at once
    have hbegin := onControl_beginTeardown n ho
    rw [ht] at hbegin
    have hself : (w.claimed s n).controlOf s = { w.controlOf s with state := .tearingDown, count := n, type := none } :=
      controlOf_setControl_self _ hx
    have hvacate : onControl s ControlBlock.vacate (w.claimed s n) =
        .ok () (w.setControl s { w.controlOf s with state := .empty, count := n, type := none }) := by
      rw [onControl_ok (ControlBlock.vacate_apply _), hself, World.claimed, setControl_setControl]
    have hrun : tearDownWithin (depth + 1) s (w.setControl s { w.controlOf s with count := n }) =
        .ok () (w.setControl s { w.controlOf s with state := .empty, count := n, type := none }) := by
      unfold tearDownWithin
      rw [bind_of_ok hbegin]
      exact hvacate
    refine (ends_of_ok hrun).mpr ⟨follows_setControl (hc.leads ho ht), ?_, ?_⟩
    · have hstrike := liveSlots_strike (c := { w.controlOf s with state := .empty, count := n, type := none }) hd ho
        (by simp)
      omega
    · intro x hxt
      have hxs : x ≠ s := by
        rintro rfl
        rw [ho] at hxt
        cases hxt
      rwa [controlOf_setControl_of_ne _ _ hxs]

/-- A teardown never runs out of depth. -/
theorem tearsWithin (depth : Nat) : TearsWithin depth := by
  induction depth with
  | zero =>
    intro w s n call _ hlive ho _
    have hpos := liveSlots_pos ho
    omega
  | succ depth ih => exact ih.succ

end SlotHandles
