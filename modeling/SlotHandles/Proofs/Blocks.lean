import SlotHandles.Proofs.Dispatch
import SlotHandles.Proofs.Reentry

/-!
# Handles of blocks

A handle of a block refers to the items of a collection and carries their number.  No value stores such a handle, and no
conversion leads to or from its element type, so it is handed on as a whole: the slot, the first item and the number of
items stay together.  A collection stores no handle, so the release of a block handle ends with its own slot.

`World.Passes` says what became of one slot meanwhile, and `HandleStep.OnBlocks.passes` that each step on block handles
is of this kind.  Only a write to an item is not.
-/

namespace SlotHandles

open World

variable {w w' u x : World} {s t : SlotId} {p q : Holder} {h g : Handle} {v : Value} {elem : Ty} {item : Item}
  {items : List Int32} {M : Multiset Handle} {st : HandleStep}

/-! ### Where block handles are, and what they refer to -/

theorem StoredType.exists_kind_of_link? {type : StoredType} {family : Family} (hl : type.link? = some (family, elem)) :
    ∃ kind, elem = .ofKind kind := by
  unfold link? at hl
  split at hl
  · cases hl
    exact ⟨.node, rfl⟩
  · cases hl
    exact ⟨.snode, rfl⟩
  · cases hl

/-- Values store handles to objects of a kind and no others, which the program holds itself. -/
theorem World.Sound.isOwn_of_ne_ofKind (hw : w.Sound M) (hl : w.live? p = some h)
    (he : ∀ kind, h.elem ≠ .ofKind kind) : p.isOwn := by
  have hstored : ∀ v : Value, v.IsProper → v.next? ≠ some h := by
    intro v hv hn
    obtain ⟨kind, hk⟩ := StoredType.exists_kind_of_link? (hv.link h hn)
    exact he kind hk
  cases p with
  | named n | result n => rfl
  | inside s =>
    obtain ⟨ho, v, hv, hn⟩ := nestedIn_eq_some_iff.mp hl
    exact absurd hn (hstored v (hw.balanced.value_of_storage ho hv).2.2)
  | within n =>
    obtain ⟨v, hv, hn⟩ := Option.bind_eq_some_iff.mp hl
    exact absurd hn (hstored v (hw.proper n v hv))

theorem World.Sound.isOwn_of_isBlock (hw : w.Sound M) (hl : w.live? p = some h) (hb : h.elem.isBlock) : p.isOwn := by
  refine hw.isOwn_of_ne_ofKind hl fun kind he => ?_
  rw [he] at hb
  cases hb

theorem Run.eq_of_convertible {target source : Ty} (hc : Run.convertible target source)
    (hb : target.isBlock ∨ source.isBlock) : target = source := by
  unfold Run.convertible Ty.takesOver at hc
  rcases hb with hb | hb <;> simpa [hb] using hc

theorem Handle.convert_self (h : Handle) : h.convert h.elem = h := if_pos rfl

theorem Referent.extent_empty (elem : Ty) : (Referent.empty elem).extent = 0 := by
  cases elem <;> rfl

theorem Value.eq_collection {n : Nat} (hv : v.type = .collection item n) :
    ∃ items, v = .collection item items ∧ items.length = n := by
  cases v with
  | collection i items =>
    obtain ⟨rfl, rfl⟩ : i = item ∧ items.length = n := by simpa [Value.type] using hv
    exact ⟨items, rfl, rfl⟩
  | _ => cases hv

/-- The slot of a block handle holds a collection, and the handle refers to the items of that collection. -/
theorem World.Sound.holds_of_isBlock (hw : w.Sound M) (hl : w.live? p = some h) (hb : h.elem.isBlock)
    (hs : h.slot = some s) :
    ∃ item items, w.Holds s (.collection item items.length) (.collection item items) ∧
      h.ref = .items (if items.length = 0 then none else some (.startOf s)) items.length := by
  obtain ⟨t, ht, hd⟩ := (Handle.refersIn_of_slot_eq_some hs).mp (hw.refersIn_of_live hl)
  cases he : h.elem with
  | block i extent =>
    rw [he] at hd
    obtain ⟨item, n, rfl, href⟩ := hd
    obtain ⟨v, hv, htype⟩ := hw.balanced.value_of_type ht
    obtain ⟨items, rfl, rfl⟩ := Value.eq_collection htype
    exact ⟨item, items, ⟨ht, hv⟩, href⟩
  | _ => rw [he] at hb; cases hb

theorem World.Sound.count_ne_zero (hw : w.Sound M) (hl : w.live? p = some h) (hf : h.family = .shared)
    (hs : h.slot = some s) : (w.controlOf s).count ≠ 0 := by
  have hmem := hw.mem_of_live hl
  have hpos := (hw.balanced.shared_count hmem hf hs).2
  have hsum := hw.balanced.count_eq (hw.balanced.occupied hmem hs)
  intro h0
  rw [h0] at hsum
  have hzero : (0 : UInt32).toNat = 0 := rfl
  omega

/-! ### One slot while handles are handed on -/

/-- The value in the slot has come to its end: it announced that, and the slot is empty. -/
structure World.Parts (w : World) (s : SlotId) (v : Value) (w' : World) : Prop where
  holds : w.Holds s v.type v
  emptied : (w'.controlOf s).state = .empty
  trace : w'.trace = w.trace ++ .destructed s v.type :: v.parting

/-- Nothing was built or destroyed in the slot meanwhile. -/
def World.Still (w : World) (s : SlotId) (w' : World) : Prop := ∃ es, w'.trace = w.trace ++ es ∧ lifeOf s es = []

/-- The slot is left as it was, but for its count. -/
structure World.Stays (w : World) (s : SlotId) (w' : World) : Prop where
  state : (w'.controlOf s).state = (w.controlOf s).state
  type : w'.typeIn s = w.typeIn s
  stored : w'.storageOf s = w.storageOf s
  still : w.Still s w'

/-- The slot is left as it was, or its value has come to its end. -/
def World.Passes (w : World) (s : SlotId) (w' : World) : Prop := w.Stays s w' ∨ ∃ v, w.Parts s v w'

/-- Nothing has happened to the slots but that counts may have changed. -/
structure World.Steady (w w' : World) : Prop where
  state : ∀ s, (w'.controlOf s).state = (w.controlOf s).state
  type : ∀ s, w'.typeIn s = w.typeIn s
  stored : ∀ s, w'.storageOf s = w.storageOf s
  trace : w'.trace = w.trace

/-- Only handles and values of the program's own have changed. -/
structure World.HandsOn (w w' : World) : Prop where
  slots : w'.slots = w.slots
  trace : w'.trace = w.trace

namespace World

theorem still_of_trace_eq (ht : u.trace = w.trace) (s : SlotId) : w.Still s u :=
  ⟨[], by rw [ht, List.append_nil], rfl⟩

theorem Still.trans (h : w.Still s x) (h' : x.Still s u) : w.Still s u := by
  obtain ⟨es, htrace, hlife⟩ := h
  obtain ⟨es', htrace', hlife'⟩ := h'
  refine ⟨es ++ es', ?_, ?_⟩
  · rw [htrace', htrace, List.append_assoc]
  · rw [lifeOf_append, hlife, hlife', List.append_nil]

theorem Stays.trans (h : w.Stays s x) (h' : x.Stays s u) : w.Stays s u :=
  ⟨h'.state.trans h.state, h'.type.trans h.type, h'.stored.trans h.stored, h.still.trans h'.still⟩

theorem Stays.holds {type : StoredType} (h : w.Stays s u) (hv : w.Holds s type v) : u.Holds s type v :=
  ⟨h.type.trans hv.1, h.stored.trans hv.2⟩

theorem HandsOn.refl (w : World) : w.HandsOn w := ⟨rfl, rfl⟩

theorem HandsOn.trans (h : w.HandsOn x) (h' : x.HandsOn u) : w.HandsOn u :=
  ⟨h'.slots.trans h.slots, h'.trace.trans h.trace⟩

theorem HandsOn.controlOf (h : w.HandsOn u) (s : SlotId) : u.controlOf s = w.controlOf s :=
  controlOf_congr (by rw [h.slots])

theorem HandsOn.steady (h : w.HandsOn u) : w.Steady u where
  state s := by rw [h.controlOf]
  type s := typeIn_congr (h.controlOf s)
  stored s := storageOf_congr (by rw [h.slots])
  trace := h.trace

theorem Steady.trans (h : w.Steady x) (h' : x.Steady u) : w.Steady u :=
  ⟨fun s => (h'.state s).trans (h.state s), fun s => (h'.type s).trans (h.type s),
    fun s => (h'.stored s).trans (h.stored s), h'.trace.trans h.trace⟩

theorem Steady.holds {type : StoredType} (h : w.Steady u) (hv : w.Holds s type v) : u.Holds s type v :=
  ⟨(h.type s).trans hv.1, (h.stored s).trans hv.2⟩

theorem Steady.holds_back {type : StoredType} (h : w.Steady u) (hv : u.Holds s type v) : w.Holds s type v :=
  ⟨(h.type s).symm.trans hv.1, (h.stored s).symm.trans hv.2⟩

theorem Steady.passes (h : w.Steady u) (s : SlotId) : w.Passes s u :=
  .inl ⟨h.state s, h.type s, h.stored s, still_of_trace_eq h.trace s⟩

theorem Passes.congr (hp : x.Passes s u) (h : w.Steady x) (h' : u.Steady w') : w.Passes s w' := by
  rcases hp with ⟨hstate, htype, hstored, hstill⟩ | ⟨v, hholds, hstate, htrace⟩
  · refine .inl ⟨?_, ?_, ?_, ?_⟩
    · rw [h'.state, hstate, h.state]
    · rw [h'.type, htype, h.type]
    · rw [h'.stored, hstored, h.stored]
    · exact ((still_of_trace_eq h.trace s).trans hstill).trans (still_of_trace_eq h'.trace s)
  · exact .inr ⟨v, h.holds_back hholds, by rw [h'.state, hstate], by rw [h'.trace, htrace, h.trace]⟩

/-- A handle is put at a place of the program's own. -/
theorem handsOn_setHandle (hp : p.isOwn) (w : World) (h : Handle) : w.HandsOn (w.setHandle p h) := by
  refine ⟨slots_setHandle ?_ h, trace_setHandle ..⟩
  rintro s rfl
  cases hp

end World

theorem World.Counts.steady (hc : w.Counts u) (ht : u.trace = w.trace) : w.Steady u :=
  ⟨hc.calm.state, hc.calm.type, hc.storage, ht⟩

theorem trace_countShared (h : Handle) (w : World) :
    Ends (countShared h) w (fun _ u => u.trace = w.trace) (fun _ u => u.trace = w.trace) := by
  unfold countShared
  cases h.slot with
  | none => rfl
  | some s =>
    dsimp only
    cases hc : (w.controlOf s).addReference with
    | ok a c => rw [ends_of_ok (onControl_ok hc)]; rfl
    | error f c => rw [ends_of_error (onControl_error hc)]; rfl

/-! ### Letting go -/

theorem lifeOf_parting_of_ne (ht : t ≠ s) (v : Value) : lifeOf t (.destructed s v.type :: v.parting) = [] := by
  unfold lifeOf
  rw [List.filter_cons_of_neg (by simp [Event.marks, ht.symm])]
  exact quiet_parting v t

/-- The last handle of a block lets go, wherever the handles of the program are by then. -/
theorem release_of_last (hw : w.Sound M) (hl : w.live? p = some h) (hb : h.elem.isBlock) (hs : h.slot = some s)
    (hlast : h.IsLast (w.controlOf s)) (hx : w.HandsOn x) :
    ∃ u v, release h x = .ok () u ∧ x.Parts s v u ∧ u.held = x.held ∧ ∀ t, t ≠ s → x.Stays t u := by
  obtain ⟨item, items, hholds, -⟩ := hw.holds_of_isBlock hl hb hs
  obtain ⟨htype, hv⟩ := hx.steady.holds hholds
  have hd : x.slots.Distinct := hx.slots ▸ hw.balanced.distinct
  have hexists := find?_isSome_of_occupied (typeIn_eq_some_iff.mp htype).1
  have hrun := release_of_attempts (v := .collection item items) hd hs (by rwa [hx.controlOf]) htype hv rfl
    (by simp [Value.onDestroy])
  refine ⟨_, .collection item items, hrun, ⟨⟨htype, hv⟩, ?_, ?_⟩, rfl, fun t ht => ⟨?_, ?_, ?_, _, rfl, ?_⟩⟩
  · rw [controlOf_log, controlOf_setControl_self _ hexists]
  · exact congrArg (x.trace ++ ·) (List.append_nil _)
  · rw [controlOf_log, controlOf_setControl_of_ne _ _ ht]
  · exact typeIn_setControl_of_ne _ _ ht
  · exact storageOf_setControl ..
  · exact (congrArg (lifeOf t) (List.append_nil _)).trans (lifeOf_parting_of_ne ht (.collection item items))

/-- A block handle that is not the last one is counted off. -/
theorem release_of_not_last (hw : w.Sound M) (hl : w.live? p = some h) (hs : h.slot = some s)
    (hlast : ¬ h.IsLast (w.controlOf s)) (hx : w.HandsOn x) :
    ∃ u, release h x = .ok () u ∧ u.held = x.held ∧ ∀ t, x.Stays t u := by
  obtain ⟨hf, hone⟩ := not_or.mp hlast
  have hshared : h.family = .shared := by
    cases hfam : h.family with
    | unique => exact absurd hfam hf
    | shared => rfl
  have hcount := hw.count_ne_zero hl hshared hs
  have hexists : (x.slots.find? s).isSome := hx.slots ▸ find?_isSome_of_count hcount
  refine ⟨x.setControl s { x.controlOf s with count := (x.controlOf s).count - 1 }, ?_, rfl, fun t => ?_⟩
  · unfold release releaseWith
    rw [hs, hshared]
    refine (dropWith_apply tearDown s x).trans ?_
    rw [hx.controlOf, if_neg hcount, if_neg hone]
  · obtain ⟨hstate, htype⟩ := state_typeIn_recount hexists ((x.controlOf s).count - 1) t
    exact ⟨hstate, htype, storageOf_setControl .., still_of_trace_eq rfl t⟩

/-- A block handle is released: its collection comes to its end if the handle was the last one, and nothing else
happens to any slot. -/
theorem release_passes (hw : w.Sound M) (hl : w.live? p = some h) (hb : h.elem.isBlock) (hx : w.HandsOn x) :
    ∃ u, release h x = .ok () u ∧ u.held = x.held ∧ ∀ t, x.Passes t u := by
  cases hs : h.slot with
  | none => exact ⟨x, releaseWith_of_empty hs, rfl, fun t => (HandsOn.refl x).steady.passes t⟩
  | some s =>
    by_cases hlast : h.IsLast (w.controlOf s)
    · obtain ⟨u, v, hrun, hparts, hheld, hstays⟩ := release_of_last hw hl hb hs hlast hx
      refine ⟨u, hrun, hheld, fun t => ?_⟩
      by_cases ht : t = s
      · exact .inr ⟨v, ht ▸ hparts⟩
      · exact .inl (hstays t ht)
    · obtain ⟨u, hrun, hheld, hstays⟩ := release_of_not_last hw hl hs hlast hx
      exact ⟨u, hrun, hheld, fun t => .inl (hstays t)⟩

/-! ### Steps -/

/-- The place holds a handle of a block. -/
def World.HoldsBlock (w : World) (p : Holder) : Prop := ∃ h, w.live? p = some h ∧ h.elem.isBlock

theorem Handle.FailsAt.isViolation {i : Nat} {f : Failure} (hf : h.FailsAt i f) : ∃ v, f = .violation v := by
  rcases hf with ⟨hf, -⟩ | ⟨hf, -⟩
  · exact ⟨_, hf⟩
  · exact ⟨_, hf⟩

namespace HandleStep

/-- The step is one on handles of blocks: it makes one in another slot than `s`, moves, copies, assigns, swaps or lets
go of them, or reads or writes an item. -/
def OnBlocks (st : HandleStep) (w : World) (s : SlotId) : Prop :=
  match st with
  | .empty _ _ elem => elem.isBlock
  | .make _ t _ elem _ _ => elem.isBlock ∧ t ≠ s
  | .constructByMove _ _ p | .constructByCopy _ _ p | .assignByMove p _ | .assignByCopy p _ | .reset p | .destroy p
  | .swap p _ | .readItem p _ | .writeItem p _ _ => w.HoldsBlock p
  | _ => False

theorem Completes.eq_of_run (hc : st.Completes w u) {a : Answer} (hrun : st.run w = .ok a x) : u = x :=
  hc.after.symm.trans (outcome_after_of_ok hrun).2

end HandleStep

theorem World.Vacant.ne_of_live {into : Holder} (hinto : w.Vacant into) (hp : p.isOwn) (hl : w.live? p = some h) :
    p ≠ into := by
  rintro rfl
  rw [live?_own hp, hinto.2] at hl
  cases hl

namespace World.Sound

/-- A block handle is moved into a new place. -/
theorem run_constructByMove {into : Holder} (hw : w.Sound M) (hinto : w.Vacant into) (hl : w.live? p = some h)
    (hb : h.elem.isBlock) :
    ∃ u, (HandleStep.constructByMove into h.elem p).run w = .ok .done u ∧ w.HandsOn u ∧
      u.live? p = some h.cleared ∧ u.live? into = some h := by
  have hp := hw.isOwn_of_isBlock hl hb
  have hne := hinto.ne_of_live hp hl
  refine ⟨(w.setHandle p h.cleared).setHandle into h, ?_, ?_, ?_, live?_setHandle_own hinto.1 _ _⟩
  · refine (bind_of_ok (moveHandle_apply hl h.elem)).trans ?_
    rw [Handle.convert_self]
    rfl
  · exact (handsOn_setHandle hp w _).trans (handsOn_setHandle hinto.1 _ _)
  · rw [live?_setHandle_of_ne hne, live?_setHandle_own hp]

/-- The old handle of a block is released, and the source is moved from, before or after that. -/
theorem run_assignByMove (hw : w.Sound M) (hl : w.live? p = some h) (hb : h.elem.isBlock) (hg : w.live? q = some g)
    (he : h.elem = g.elem) (hne : p ≠ q) :
    ∃ u, (HandleStep.assignByMove p q).run w = .ok .done u ∧ (∀ t, w.Passes t u) ∧
      u.live? q = some g.cleared ∧ u.live? p = some g := by
  have hp := hw.isOwn_of_isBlock hl hb
  have hq := hw.isOwn_of_isBlock hg (he ▸ hb)
  have hconvert : g.convert h.elem = g := he ▸ g.convert_self
  cases hfam : h.family with
  | unique =>
    have hlift := handsOn_setHandle hp w h.cleared
    obtain ⟨y, hrelease, hheld, hpasses⟩ := release_passes hw hl hb hlift
    have hsource : y.live? q = some g := by
      rw [live?_own hq, hheld, ← live?_own hq, live?_setHandle_of_ne (Ne.symm hne), hg]
    refine ⟨(y.setHandle q g.cleared).setHandle p g, ?_, fun t => ?_, ?_, live?_setHandle_own hp _ g⟩
    · have hreset := (resetHandle_apply hw hl).trans hrelease
      have hassign : SlotHandles.assignByMove p q w = .ok () ((y.setHandle q g.cleared).setHandle p g) := by
        rw [assignByMove_of_unique hl hfam hne, bind_of_ok hreset, bind_of_ok (moveHandle_apply hsource _), hconvert]
        rfl
      exact bind_of_ok hassign
    · exact (hpasses t).congr hlift.steady ((handsOn_setHandle hq y _).trans (handsOn_setHandle hp _ g)).steady
    · rw [live?_setHandle_of_ne (Ne.symm hne), live?_setHandle_own hq]
  | shared =>
    have hmove := handsOn_setHandle hq w g.cleared
    obtain ⟨y, hrelease, hheld, hpasses⟩ := release_passes hw hl hb hmove
    refine ⟨y.setHandle p g, ?_, fun t => ?_, ?_, live?_setHandle_own hp _ g⟩
    · have hassign : SlotHandles.assignByMove p q w = .ok () (y.setHandle p g) := by
        rw [assignByMove_of_shared hl hfam hg hne, bind_of_ok hrelease, hconvert]
        rfl
      exact bind_of_ok hassign
    · exact (hpasses t).congr hmove.steady (handsOn_setHandle hp y g).steady
    · rw [live?_setHandle_of_ne (Ne.symm hne), live?_own hq, hheld, ← live?_own hq, live?_setHandle_own hq]

/-- A block handle is copied into a new place. -/
theorem run_constructByCopy {into : Holder} (hw : w.Sound M) (hinto : w.Vacant into) (hl : w.live? p = some h)
    (hb : h.elem.isBlock) (hf : h.family = .shared) :
    Ends (HandleStep.constructByCopy into h.elem p).run w
      (fun _ u => w.Steady u ∧ u.live? p = some h ∧ u.live? into = some h) (fun f _ => ∃ v, f = .violation v) := by
  have hne := hinto.ne_of_live (hw.isOwn_of_isBlock hl hb) hl
  unfold HandleStep.run
  rw [ends_bind, copyHandle_eq, ends_bind, ends_of_ok (readHandle_apply hl), ends_bind]
  refine ((countShared_ends hw (hw.mem_of_live hl) hf).and (trace_countShared h w)).mono ?_
    fun f _ hfull => ⟨_, hfull.1.1⟩
  rintro - x ⟨⟨-, hcounts⟩, htrace⟩
  refine ⟨(hcounts.steady htrace).trans (handsOn_setHandle hinto.1 x _).steady, ?_, ?_⟩
  · exact (live?_setHandle_of_ne hne _).trans ((hcounts.live? p).trans hl)
  · rw [Handle.convert_self]
    exact live?_setHandle_own hinto.1 x h

/-- The new handle of a block is counted before the old one is released. -/
theorem run_assignByCopy (hw : w.Sound M) (hl : w.live? p = some h) (hb : h.elem.isBlock) (hg : w.live? q = some g)
    (hf : g.family = .shared) (he : h.elem = g.elem) :
    Ends (HandleStep.assignByCopy p q).run w
      (fun _ u => (∀ t, w.Passes t u) ∧ u.live? q = some g ∧ u.live? p = some g)
      (fun f _ => ∃ v, f = .violation v) := by
  have hp := hw.isOwn_of_isBlock hl hb
  have hq := hw.isOwn_of_isBlock hg (he ▸ hb)
  unfold HandleStep.run
  rw [ends_bind, assignByCopy_eq, ends_bind, ends_of_ok (readHandle_apply hg), ends_bind]
  refine ((countShared_ends hw (hw.mem_of_live hg) hf).and (trace_countShared g w)).mono ?_
    fun f _ hfull => ⟨_, hfull.1.1⟩
  rintro - x ⟨⟨hx, hcounts⟩, htrace⟩
  have hlx : x.live? p = some h := (hcounts.live? p).trans hl
  obtain ⟨y, hrelease, hheld, hpasses⟩ := release_passes hx hlx hb (.refl x)
  have hsource : y.live? q = some g := by
    rw [live?_own hq, hheld, ← live?_own hq, hcounts.live?, hg]
  have hconvert : g.convert h.elem = g := he ▸ g.convert_self
  have hself : (y.setHandle p g).live? p = some g := live?_setHandle_own hp y g
  rw [ends_bind, ends_of_ok (readHandle_apply hlx), ends_bind, ends_of_ok hrelease, ends_bind,
    ends_of_ok (readHandle_apply hsource), ends_of_ok (writeHandle_apply ..), hconvert]
  refine ⟨fun t => (hpasses t).congr (hcounts.steady htrace) (handsOn_setHandle hp y g).steady, ?_, hself⟩
  by_cases hqp : q = p
  · exact hqp ▸ hself
  · exact (live?_setHandle_of_ne hqp g).trans hsource

/-- A block handle is reset or destroyed: it leaves its place, and is released. -/
theorem run_letsGo (hw : w.Sound M) (hl : w.live? p = some h) (hb : h.elem.isBlock)
    (hst : st = .reset p ∨ st = .destroy p) :
    ∃ x, w.HandsOn x ∧ ∀ u, SlotHandles.release h x = .ok () u → st.run w = .ok .done u := by
  rcases hst with rfl | rfl
  · refine ⟨w.setHandle p h.cleared, handsOn_setHandle (hw.isOwn_of_isBlock hl hb) w _, fun u hrun => ?_⟩
    exact bind_of_ok ((resetHandle_apply hw hl).trans hrun)
  · refine ⟨{ w with held := w.held.remove p }, ⟨rfl, rfl⟩, fun u hrun => ?_⟩
    exact bind_of_ok ((bind_of_ok (readHandle_apply hl)).trans hrun)

theorem passes_letsGo (hw : w.Sound M) (hl : w.live? p = some h) (hb : h.elem.isBlock)
    (hst : st = .reset p ∨ st = .destroy p) (hc : st.Completes w u) (s : SlotId) : w.Passes s u := by
  obtain ⟨x, hx, hrun⟩ := hw.run_letsGo hl hb hst
  obtain ⟨y, hrelease, -, hpasses⟩ := release_passes hw hl hb hx
  exact hc.eq_of_run (hrun y hrelease) ▸ (hpasses s).congr hx.steady (HandsOn.refl y).steady

/-- A handle is made in another slot. -/
theorem passes_make {into : Holder} {family : Family} {o : Origin} {throwing : Bool} (hw : w.Sound M)
    (ha : (HandleStep.make into t family elem o throwing).Admissible w)
    (hc : (HandleStep.make into t family elem o throwing).Completes w u) (ht : s ≠ t) : w.Passes s u := by
  obtain ⟨hinto, hx, -, -, hn⟩ := ha
  have hafter := hc.after
  have hq := quiet_placement o (w.controlOf t) s
  unfold HandleStep.after at hafter
  rw [run_make_apply into family elem hw.balanced.distinct hx hn throwing] at hafter
  cases hp : o.placement (w.controlOf t) with
  | refused e =>
    rw [hp] at hafter
    cases throwing <;> exact hafter ▸ (HandsOn.refl w).steady.passes s
  | threw thrown es =>
    rw [hp] at hafter hq
    dsimp only at hafter
    subst hafter
    exact .inl ⟨rfl, rfl, rfl, es, rfl, hq⟩
  | built es =>
    rw [hp] at hafter hq
    dsimp only at hafter
    subst hafter
    have hother : (w.built t o.seed.value es).slots.find? s = w.slots.find? s :=
      (find?_built w t s o.seed.value es).trans (if_neg ht)
    have hpasses : w.Passes s (w.built t o.seed.value es) := by
      refine .inl ⟨?_, typeIn_congr (controlOf_congr hother), storageOf_congr hother, _, List.append_assoc .., ?_⟩
      · rw [controlOf_congr hother]
      · rw [lifeOf_append, show lifeOf s es = [] from hq]
        simp [lifeOf, Event.marks, ht.symm]
    exact hpasses.congr (HandsOn.refl w).steady (handsOn_setHandle hinto.1 _ _).steady

end World.Sound

/-- Unless an item is written, a slot is left as it was, or its value comes to its end. -/
theorem HandleStep.OnBlocks.passes (hb : st.OnBlocks w s) (hw : w.Sound M) (ha : st.Admissible w)
    (hc : st.Completes w u) (hn : ∀ p i n, st ≠ .writeItem p i n) : w.Passes s u := by
  cases st with
  | empty into family elem =>
    obtain rfl := hc.eq_of_run rfl
    exact (handsOn_setHandle ha.1.1 w _).steady.passes s
  | make into t family elem o throwing => exact hw.passes_make ha hc hb.2.symm
  | constructByMove into elem p =>
    obtain ⟨h, hl, hblock⟩ := hb
    obtain ⟨hinto, h', hl', hcv⟩ := ha
    obtain rfl : h = h' := Option.some_inj.mp (hl.symm.trans hl')
    obtain rfl := Run.eq_of_convertible hcv (.inr hblock)
    obtain ⟨x, hrun, hx, -⟩ := hw.run_constructByMove hinto hl hblock
    exact hc.eq_of_run hrun ▸ hx.steady.passes s
  | constructByCopy into elem p =>
    obtain ⟨h, hl, hblock⟩ := hb
    obtain ⟨hinto, h', hl', hf, hcv⟩ := ha
    obtain rfl : h = h' := Option.some_inj.mp (hl.symm.trans hl')
    obtain rfl := Run.eq_of_convertible hcv (.inr hblock)
    exact (hc.of_ends (hw.run_constructByCopy hinto hl hblock hf)).1.passes s
  | assignByMove p q =>
    obtain ⟨h, hl, hblock⟩ := hb
    obtain ⟨h', g, hl', hg, hf, hcv⟩ := ha
    obtain rfl : h = h' := Option.some_inj.mp (hl.symm.trans hl')
    by_cases hne : p = q
    · have hrun : (HandleStep.assignByMove p q).run w = .ok .done w := bind_of_ok (assignByMove_self hne w)
      exact hc.eq_of_run hrun ▸ (HandsOn.refl w).steady.passes s
    · obtain ⟨x, hrun, hx, -⟩ := hw.run_assignByMove hl hblock hg (Run.eq_of_convertible hcv (.inl hblock)) hne
      exact hc.eq_of_run hrun ▸ hx s
  | assignByCopy p q =>
    obtain ⟨h, hl, hblock⟩ := hb
    obtain ⟨h', g, hl', hg, hfh, hfg, hcv⟩ := ha
    obtain rfl : h = h' := Option.some_inj.mp (hl.symm.trans hl')
    exact (hc.of_ends (hw.run_assignByCopy hl hblock hg hfg (Run.eq_of_convertible hcv (.inl hblock)))).1 s
  | reset p =>
    obtain ⟨h, hl, hblock⟩ := hb
    exact hw.passes_letsGo hl hblock (.inl rfl) hc s
  | destroy p =>
    obtain ⟨h, hl, hblock⟩ := hb
    exact hw.passes_letsGo hl hblock (.inr rfl) hc s
  | swap p q =>
    obtain ⟨h', g, hl, hg, -, he⟩ := ha
    obtain ⟨h, hl', hblock⟩ := hb
    obtain rfl : h = h' := Option.some_inj.mp (hl'.symm.trans hl)
    obtain rfl := hc.eq_of_run (bind_of_ok (swapHandles_apply hl hg))
    have hfirst := handsOn_setHandle (hw.isOwn_of_isBlock hl hblock) w g
    exact (hfirst.trans (handsOn_setHandle (hw.isOwn_of_isBlock hg (he ▸ hblock)) _ h)).steady.passes s
  | readItem p i =>
    obtain ⟨h, hl, hblock⟩ := ha
    have hends : Ends (HandleStep.readItem p i).run w (fun _ x => x = w) (fun f _ => ∃ v, f = .violation v) := by
      unfold HandleStep.run
      rw [ends_bind, ends_of_ok (readHandle_apply hl), ends_bind]
      exact (readItem_ends hw (hw.refersIn_of_live hl) hblock i).mono (fun _ _ h => h.1) fun _ _ h =>
        Handle.FailsAt.isViolation h
    exact hc.of_ends (hends.mono (fun _ _ hx => hx ▸ (HandsOn.refl w).steady.passes s) fun _ _ h => h)
  | writeItem p i n => exact absurd rfl (hn p i n)
  | castByMove | castByCopy | take | destroyTaken | dereference | change | call => exact hb.elim

/-- A write that completes sets an item of the collection in the slot of its handle. -/
theorem World.Sound.completes_writeItem {i : Nat} {n : Int32} (hw : w.Sound M)
    (ha : (HandleStep.writeItem p i n).Admissible w) (hc : (HandleStep.writeItem p i n).Completes w u) :
    ∃ h t item items, w.live? p = some h ∧ h.slot = some t ∧
      w.Holds t (.collection item items.length) (.collection item items) ∧
      u = w.setStorage t (.collection item (items.set i (item.cut n))) := by
  obtain ⟨h, hl, hb, -, -⟩ := ha
  have hends : Ends (HandleStep.writeItem p i n).run w
      (fun _ x => ∃ t v, h.slot = some t ∧ h.LeadsTo w t v ∧ x = w.setStorage t (v.setItem i n))
      (fun f _ => ∃ v, f = .violation v) := by
    unfold HandleStep.run
    rw [ends_bind, ends_of_ok (readHandle_apply hl), ends_bind]
    exact (writeItem_ends hw (hw.refersIn_of_live hl) hb i n).mono (fun _ _ h => h) fun _ _ h =>
      Handle.FailsAt.isViolation h
  obtain ⟨t, v, ht, hleads, rfl⟩ := hc.of_ends hends
  obtain ⟨item, items, hholds, -⟩ := hw.holds_of_isBlock hl hb ht
  obtain ⟨-, rfl⟩ := hleads.eq ht ht hholds.2
  exact ⟨h, t, item, items, hl, ht, hholds, rfl⟩

end SlotHandles
