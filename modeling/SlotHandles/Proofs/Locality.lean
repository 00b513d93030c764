import SlotHandles.Proofs.Construction
import SlotHandles.Proofs.Drops
import SlotHandles.Proofs.Footprint
import SlotHandles.Proofs.Taking

/-!
# Every action is local

The closure of `Local` under the operations on handles, up to the steps of handle programs (`accord_run`).  A cascade
of releases is local too: its depth is computed from the whole world, but any depth that suffices gives the same
(`accord_tearDownWithin`).  The step that makes a handle stands apart, since it builds over what is left in the storage
of its slot and never reads it (`together_make`).
-/

namespace SlotHandles

open World

variable {F : Footprint} {w w' u u' : World} {s : SlotId} {p q : Holder} {h : Handle} {v : Value} {elem : Ty}
  {α β : Type}

/-! ### Single operations -/

theorem local_recordAll {es : List Event} (hes : ∀ s, s ∉ F.slots → lifeOf s es = []) :
    Local F (fun _ => True) (recordAll es) := local_modify fun _ _ hp => hp.log es hes

theorem local_record {e : Event} (he : ∀ s, s ∉ F.slots → lifeOf s [e] = []) : Local F (fun _ => True) (record e) :=
  local_modify fun _ _ hp => hp.log [e] he

theorem local_quiet {es : List Event} (hq : Quiet es) : Local F (fun _ => True) (recordAll es) :=
  local_recordAll fun s _ => hq s

theorem local_controlNow (hs : s ∈ F.slots) : Local F (fun _ => True) (controlNow s) := by
  refine local_get_bind fun w u hp => ?_
  rw [hp.coincide.controlOf hs]
  exact accord_of_ok rfl rfl trivial hp.same

theorem local_onControl (hs : s ∈ F.slots) (op : ControlBlock.Op α) : Local F (fun _ => True) (onControl s op) := by
  intro w u hp
  have hsame := hp.coincide.controlOf hs
  cases e : op (w.controlOf s) with
  | ok x c => exact accord_of_ok (onControl_ok e) (onControl_ok (hsame ▸ e)) trivial (hp.setControl hs c)
  | error x c => exact accord_of_error (onControl_error e) (onControl_error (hsame ▸ e)) (hp.setControl hs c).1

theorem local_writeHandle (hp : p.In F) (hh : h.LeadsInto F) : Local F (fun _ => True) (writeHandle p h) :=
  local_modify fun _ _ hw => hw.setHandle hp hh

theorem local_writeObject {r : Region} (hr : r.In F) (hv : v.LeadsInto F) : Local F (fun _ => True) (writeObject r v) :=
  local_modify fun _ _ hw => hw.setObject hr hv

theorem local_readHandle (hp : p.In F) : Local F (fun h => h.LeadsInto F) (readHandle p) := by
  have hread : ∀ w u, Paired F w u → Accord F (fun h : Handle => h.LeadsInto F)
      (pure ((w.handle? p).getD (.empty .unique (.ofKind .node))))
      (pure ((u.handle? p).getD (.empty .unique (.ofKind .node)))) w u := by
    intro w u hw
    rw [← hw.coincide.handle? hp]
    refine accord_of_ok rfl rfl ?_ hw.same
    cases hh : w.handle? p with
    | none => exact Handle.leadsInto_empty ..
    | some h => exact hw.closed.handle? hp hh
  refine local_get_bind fun w u hw => ?_
  cases p with
  | named n | result n | within n => exact hread w u hw
  | inside s =>
    have hs : s ∈ F.slots := hp
    have hsame := hw.coincide.handle? hp
    dsimp only
    rw [hw.coincide.controlOf hs]
    split
    · -- the report of a read after the end is about the slot itself
      have hquiet : ∀ t, t ∉ F.slots → lifeOf t [.readAfterDestruction s] = [] := fun _ _ => rfl
      refine Accord.bind hw (local_record hquiet w u hw) fun _ w' u' _ hw' => ?_
      rw [← hsame]
      refine accord_of_ok rfl rfl ?_ hw'.same
      cases hh : w.handle? (.inside s) with
      | none => exact Handle.leadsInto_empty ..
      | some h => exact hw.closed.handle? hp hh
    · exact hread w u hw

/-! ### Cascades -/

/-- The teardowns of two runs end in the same way, each with as much depth as its world may need. -/
def TearsAlike (F : Footprint) (m n : Nat) (td td' : SlotId → Act Unit) : Prop :=
  ∀ s w u, s ∈ F.slots → Paired F w u → w.liveSlots ≤ m → u.liveSlots ≤ n →
    Accord F (fun _ => True) (td s) (td' s) w u

section

variable {m n : Nat} {td td' : SlotId → Act Unit}

theorem accord_releaseWith (htd : TearsAlike F m n td td') (hw : Paired F w u) (hm : w.liveSlots ≤ m)
    (hn : u.liveSlots ≤ n) (hh : h.LeadsInto F) :
    Accord F (fun _ => True) (releaseWith td h) (releaseWith td' h) w u := by
  unfold releaseWith
  cases hs : h.slot with
  | none => exact accord_of_ok rfl rfl trivial hw.same
  | some s =>
    have hsF := hh.slot s hs
    cases h.family with
    | unique => exact htd s w u hsF hw hm hn
    | shared =>
      have hsame := hw.coincide.controlOf hsF
      have hcount := hw.setControl hsF { w.controlOf s with count := (w.controlOf s).count - 1 }
      have hleft := dropWith_apply td s w
      have hright := dropWith_apply td' s u
      rw [← hsame] at hright
      by_cases h0 : (w.controlOf s).count = 0
      · rw [if_pos h0] at hleft hright
        exact accord_of_error hleft hright hcount.1
      rw [if_neg h0] at hleft hright
      by_cases h1 : (w.controlOf s).count = 1
      · rw [if_pos h1] at hleft hright
        refine accord_congr hleft hright hcount.1 (htd s _ _ hsF (hw.together hcount.1 hcount.2) ?_ ?_)
        · exact (liveSlots_setControl_of_state (c := { w.controlOf s with count := (w.controlOf s).count - 1 }) hw.left
            (find?_isSome_of_count h0) rfl).le.trans hm
        · have h0' : (u.controlOf s).count ≠ 0 := hsame ▸ h0
          have hstate : (w.controlOf s).state = (u.controlOf s).state := congrArg ControlBlock.state hsame
          exact (liveSlots_setControl_of_state (c := { w.controlOf s with count := (w.controlOf s).count - 1 }) hw.right
            (find?_isSome_of_count h0') hstate).le.trans hn
      · rw [if_neg h1] at hleft hright
        exact accord_of_ok hleft hright trivial hcount

theorem accord_destroyWith (htd : TearsAlike F m n td td') (hw : Paired F w u) (hm : w.liveSlots ≤ m)
    (hn : u.liveSlots ≤ n) (hv : v.LeadsInto F) :
    Accord F (fun _ => True) (destroyWith td v) (destroyWith td' v) w u := by
  have hlog := hw.log v.parting fun s _ => quiet_parting v s
  refine accord_congr (destroyWith_apply td v w) (destroyWith_apply td' v u) hlog.1 ?_
  unfold releaseNextWith
  cases hnext : v.next? with
  | none => exact accord_of_ok rfl rfl trivial (hw.together hlog.1 hlog.2).same
  | some h => exact accord_releaseWith htd (hw.together hlog.1 hlog.2) hm hn (hv.next h hnext)

/-- The value in a slot is destroyed alike in two worlds that look the same. -/
theorem accord_destroyStoredWith (htd : TearsAlike F m n td td') (hs : s ∈ F.slots) (t : StoredType)
    (hw : Paired F w u) (hm : w.liveSlots ≤ m) (hn : u.liveSlots ≤ n) :
    Accord F (fun _ => True) (destroyStoredWith td s t) (destroyStoredWith td' s t) w u := by
  have hmark : ∀ x, x ∉ F.slots → lifeOf x [.destructed s t] = [] := by
    intro x hx
    have hsx : s ≠ x := fun e => hx (e ▸ hs)
    simp [lifeOf, Event.marks, hsx]
  have hlog := hw.log _ hmark
  have hw₁ := hw.together hlog.1 hlog.2
  have hobject : (w.log [.destructed s t]).objectAs (.slot s) t = (u.log [.destructed s t]).objectAs (.slot s) t := by
    unfold World.objectAs
    rw [hw₁.coincide.object? (r := .slot s) hs]
  have hv : ((w.log [.destructed s t]).objectAs (.slot s) t).LeadsInto F := hw₁.closed.objectAs (r := .slot s) hs t
  unfold destroyStoredWith
  refine accord_congr (bind_of_ok (record_apply ..)) (bind_of_ok (record_apply ..)) hlog.1 ?_
  refine accord_congr (bind_of_ok rfl) (bind_of_ok rfl) (.refl hw₁.coincide) ?_
  dsimp only
  rw [← hobject]
  generalize (w.log [.destructed s t]).objectAs (.slot s) t = v at hv
  cases v with
  | probe id onBuild onDestroy =>
    obtain rfl : onDestroy = [] := by
      have hpassive := hv.passive
      simp only [Value.isPassive, Bool.and_eq_true, List.isEmpty_iff] at hpassive
      exact hpassive.2
    have hword := hw₁.log [.probeDestroyed id ((w.log [.destructed s t]).controlOf s).summary] fun _ _ => rfl
    have hsame := hw₁.coincide.controlOf hs
    dsimp only
    refine accord_congr (bind_of_ok (controlNow_apply ..)) (bind_of_ok (controlNow_apply ..)) (.refl hw₁.coincide) ?_
    rw [← hsame]
    refine accord_congr (bind_of_ok (record_apply ..)) (bind_of_ok (record_apply ..)) hword.1 ?_
    refine accord_congr (bind_of_ok rfl) (bind_of_ok rfl) (.refl hword.1.coincide) ?_
    exact accord_destroyWith htd (hw₁.together hword.1 hword.2) hm hn hv
  | node id next =>
    have hset := hw₁.setStorage hs (hv.withNext (hv.next next rfl).cleared)
    refine accord_congr (bind_of_ok (writeObject_apply ..)) (bind_of_ok (writeObject_apply ..)) hset.1 ?_
    refine accord_destroyWith htd (hw₁.together hset.1 hset.2) ?_ ?_ hv
    · exact (liveSlots_setStorage hw₁.left s _).le.trans hm
    · exact (liveSlots_setStorage hw₁.right s _).le.trans hn
  | _ => exact accord_destroyWith htd hw₁ hm hn hv

end

theorem tearDownWithin_of_not_occupied (depth : Nat) (h : (w.controlOf s).state ≠ .occupied) :
    tearDownWithin depth s w =
      .error (.violation (.doubleTeardown (w.controlOf s).state)) (w.setControl s (w.controlOf s)) := by
  have hbegin := onControl_error (s := s) (w := w) ((ControlBlock.beginTeardown_apply _).trans (if_neg h))
  cases depth with
  | zero => exact map_of_error (f := fun _ => ()) hbegin
  | succ depth => exact bind_of_error hbegin

theorem accord_tearDownWithin_idle (m n : Nat) (hs : s ∈ F.slots) (hw : Paired F w u)
    (hidle : (w.controlOf s).state ≠ .occupied) :
    Accord F (fun _ => True) (tearDownWithin m s) (tearDownWithin n s) w u := by
  have hsame := hw.coincide.controlOf hs
  have hright := tearDownWithin_of_not_occupied (w := u) n (hsame ▸ hidle)
  rw [← hsame] at hright
  exact accord_of_error (tearDownWithin_of_not_occupied m hidle) hright (hw.setControl hs _).1

/-- A teardown goes the same way with any depth that is enough. -/
theorem accord_tearDownWithin (m n : Nat) : TearsAlike F m n (tearDownWithin m) (tearDownWithin n) := by
  -- a slot that has been claimed leaves one live slot less on either side
  induction m generalizing n with
  | zero =>
    intro s w u hs hw hm _
    refine accord_tearDownWithin_idle 0 n hs hw fun ho => ?_
    have hpos := liveSlots_pos ho
    omega
  | succ m ih =>
    intro s w u hs hw hm hn
    by_cases ho : (w.controlOf s).state = .occupied
    · have hsame := hw.coincide.controlOf hs
      have ho' : (u.controlOf s).state = .occupied := hsame ▸ ho
      have hpos := liveSlots_pos ho'
      obtain ⟨n, rfl⟩ : ∃ k, n = k + 1 := ⟨n - 1, by omega⟩
      have hbegin := onControl_ok (s := s) (w := w) ((ControlBlock.beginTeardown_apply _).trans (if_pos ho))
      have hbegin' := onControl_ok (s := s) (w := u) ((ControlBlock.beginTeardown_apply _).trans (if_pos ho'))
      rw [← hsame] at hbegin'
      have hstrike := liveSlots_strike (c := { w.controlOf s with state := .tearingDown, type := none }) hw.left ho
        (by simp)
      have hstrike' := liveSlots_strike (c := { w.controlOf s with state := .tearingDown, type := none }) hw.right ho'
        (by simp)
      have hclaim := hw.setControl hs { w.controlOf s with state := .tearingDown, type := none }
      have hw₁ := hw.together hclaim.1 hclaim.2
      unfold tearDownWithin
      refine accord_congr (bind_of_ok hbegin) (bind_of_ok hbegin') hclaim.1 ?_
      have hvacate := local_onControl (F := F) hs ControlBlock.vacate
      cases (w.controlOf s).type with
      | none => exact hvacate _ _ hw₁
      | some t =>
        refine Accord.bind hw₁ (accord_destroyStoredWith (ih n) hs t hw₁ ?_ ?_) fun _ w' u' _ hw' => hvacate w' u' hw'
        · exact Nat.le_of_succ_le_succ (hstrike.le.trans hm)
        · exact Nat.le_of_succ_le_succ (hstrike'.le.trans hn)
    · exact accord_tearDownWithin_idle (m + 1) n hs hw ho

theorem local_release (hh : h.LeadsInto F) : Local F (fun _ => True) (release h) := fun w u hw =>
  accord_congr (release_apply hw.left h) (release_apply hw.right h) (.refl hw.coincide)
    (accord_releaseWith (accord_tearDownWithin w.liveSlots u.liveSlots) hw le_rfl le_rfl hh)

theorem local_destroyValue (hv : v.LeadsInto F) : Local F (fun _ => True) (destroyValue v) := by
  refine (local_quiet (quiet_parting v)).bind fun _ _ => ?_
  cases hn : v.next? with
  | none => exact local_pure trivial
  | some h => exact local_release (hv.next h hn)

/-! ### Handles -/

theorem local_moveHandle (hp : p.In F) (elem : Ty) : Local F (fun h => h.LeadsInto F) (moveHandle elem p) :=
  (local_readHandle hp).bind fun _ hh => (local_writeHandle hp hh.cleared).bind fun _ _ => local_pure (hh.convert elem)

theorem local_countShared (hh : h.LeadsInto F) : Local F (fun _ => True) (countShared h) := by
  unfold countShared
  cases hs : h.slot with
  | none => exact local_pure trivial
  | some s => exact local_onControl (hh.slot s hs) _

theorem local_copyHandle (hp : p.In F) (elem : Ty) : Local F (fun h => h.LeadsInto F) (copyHandle elem p) := by
  rw [copyHandle_eq]
  exact (local_readHandle hp).bind fun _ hh => (local_countShared hh).bind fun _ _ => local_pure (hh.convert elem)

theorem local_resetHandle (hp : p.In F) : Local F (fun _ => True) (resetHandle p) := by
  refine (local_readHandle hp).bind fun h hh => ?_
  have hrest : Local F (fun _ => True) (do writeHandle p h.cleared; release h : Act Unit) :=
    (local_writeHandle hp hh.cleared).bind fun _ _ => local_release hh
  split
  · exact local_pure trivial
  · exact hrest

theorem local_assignByMove (hp : p.In F) (hq : q.In F) : Local F (fun _ => True) (assignByMove p q) := by
  unfold assignByMove
  refine local_ite ?_ (local_pure trivial)
  refine (local_readHandle hp).bind fun old hold => ?_
  cases old.family with
  | unique =>
    refine (local_resetHandle hp).bind fun _ _ => (local_moveHandle hq _).bind fun new hnew => ?_
    exact local_writeHandle hp hnew
  | shared =>
    refine (local_moveHandle hq _).bind fun new hnew => (local_release hold).bind fun _ _ => ?_
    exact local_writeHandle hp hnew

theorem local_assignByCopy (hp : p.In F) (hq : q.In F) : Local F (fun _ => True) (assignByCopy p q) := by
  rw [assignByCopy_eq]
  refine (local_readHandle hq).bind fun h hh => (local_countShared hh).bind fun _ _ => ?_
  refine (local_readHandle hp).bind fun old hold => (local_release hold).bind fun _ _ => ?_
  exact (local_readHandle hq).bind fun new hnew => local_writeHandle hp (hnew.convert old.elem)

theorem local_swapHandles (hp : p.In F) (hq : q.In F) : Local F (fun _ => True) (swapHandles p q) :=
  (local_readHandle hp).bind fun _ ha => (local_readHandle hq).bind fun _ hb =>
    (local_writeHandle hp hb).bind fun _ _ => local_writeHandle hq ha

theorem local_keepHandle (hp : p.In F) (hh : h.LeadsInto F) : Local F (fun _ => True) (keepHandle p h) :=
  (local_writeHandle hp hh).bind fun _ _ => local_pure trivial

theorem local_destroyHandle (hown : p.isOwn) (hp : p.In F) : Local F (fun _ => True) (destroyHandle p) := by
  have hheld : p ∈ F.held := by
    cases p with
    | named n | result n => exact hp
    | inside s | within n => cases hown
  refine (local_readHandle hp).bind fun h hh => ?_
  exact (local_modify fun _ _ hw => hw.removeHeld hheld).bind fun _ _ => local_release hh

theorem local_destroyNamed {name : String} (hn : name ∈ F.values) : Local F (fun _ => True) (destroyNamed name) := by
  refine local_get_bind fun w u hw => ?_
  rw [← hw.coincide.values name hn]
  cases hv : w.values.find? name with
  | none => exact accord_of_ok rfl rfl trivial hw.same
  | some v =>
    have hremove : Local F (fun _ => True) (do
        modify fun w => { w with values := w.values.remove name }
        destroyValue v : Act Unit) :=
      (local_modify fun _ _ hw => hw.removeValue hn).bind fun _ _ =>
        local_destroyValue (hw.closed.values name hn v hv)
    exact hremove w u hw

/-! ### Casts -/

theorem local_adopting (family : Family) (elem : Ty) (hs : s ∈ F.slots) {ref : Referent}
    (hr : ∀ a, ref.address = some a → a.region.In F) :
    Local F (fun h => h.LeadsInto F) (adopting family elem s ref) := by
  have hmade : (Handle.mk family elem (some s) ref).LeadsInto F := by
    refine ⟨?_, hr⟩
    intro t ht
    cases ht
    exact hs
  exact (local_controlNow hs).bind fun _ _ => local_ite ((local_throw _).bind fun _ (_ : True) => local_pure hmade)
    (local_pure hmade)

theorem local_locateValue (hs : s ∈ F.slots) (elem : Ty) : Local F (fun a => a = .startOf s) (locateValue s elem) :=
  (local_controlNow hs).bind fun _ _ => local_ite ((local_throw _).bind fun _ (_ : True) => local_pure rfl)
    (local_pure rfl)

theorem local_adoptLocated (family : Family) (hs : s ∈ F.slots) : Local F (fun h => h.LeadsInto F) (do
    let a ← locateValue s elem
    adopting family elem s (.object (some a))) := by
  refine (local_locateValue hs elem).bind ?_
  rintro _ rfl
  refine local_adopting family elem hs ?_
  rintro a ⟨⟩
  exact hs

theorem local_castByMove (hp : p.In F) (elem : Ty) : Local F (fun h => h.LeadsInto F) (castByMove elem p) := by
  refine (local_readHandle hp).bind fun h hh => ?_
  cases hs : h.slot with
  | none => exact local_pure (Handle.leadsInto_empty ..)
  | some s =>
    have hsF := hh.slot s hs
    refine (local_controlNow hsF).bind fun _ _ => local_ite (local_pure (Handle.leadsInto_empty ..)) ?_
    exact (local_writeHandle hp hh.cleared).bind fun _ _ => local_adoptLocated h.family hsF

theorem local_castByCopy (hp : p.In F) (elem : Ty) : Local F (fun h => h.LeadsInto F) (castByCopy elem p) := by
  refine (local_readHandle hp).bind fun h hh => ?_
  cases hs : h.slot with
  | none => exact local_pure (Handle.leadsInto_empty ..)
  | some s =>
    have hsF := hh.slot s hs
    refine (local_controlNow hsF).bind fun _ _ => local_ite (local_pure (Handle.leadsInto_empty ..)) ?_
    exact (local_onControl hsF _).bind fun _ _ => local_adoptLocated h.family hsF

/-! ### Access -/

theorem local_elementOf (hh : h.LeadsInto F) : Local F (fun v => v.LeadsInto F) (elementOf h) := by
  unfold elementOf
  cases ha : h.ref.address with
  | none => exact local_throw _
  | some a =>
    have hr := hh.address a ha
    refine local_get_bind fun w u hw => ?_
    rw [← hw.coincide.object? hr]
    cases hv : w.object? a.region with
    | none => exact accord_of_error rfl rfl (.refl hw.coincide)
    | some v => exact accord_of_ok rfl rfl (hw.closed.object? hr hv) hw.same

theorem local_checkAccess (hh : h.LeadsInto F) : Local F (fun _ => True) (checkAccess h) := by
  unfold checkAccess
  cases hs : h.slot with
  | none => exact local_throw _
  | some s =>
    refine (local_controlNow (hh.slot s hs)).bind fun c _ => ?_
    cases h.ref with
    | view v =>
      have htype : Local F (fun _ => True) (if v.type ≠ c.heldType then violate .foreignView else pure () : Act Unit) :=
        local_ite (local_throw _) (local_pure trivial)
      have hview : Local F (fun _ => True) (if !v.isSome then (do
          throw .nullAccess
          if v.type ≠ c.heldType then violate .foreignView)
        else (if v.type ≠ c.heldType then violate .foreignView else pure ()) : Act Unit) :=
        local_ite ((local_throw _).bind fun _ (_ : True) => htype) htype
      exact local_ite ((local_throw _).bind fun _ (_ : True) => hview) hview
    | object | items =>
      exact local_ite ((local_throw _).bind fun _ (_ : True) => local_pure trivial) (local_pure trivial)

theorem local_dereference (hh : h.LeadsInto F) : Local F (fun v => v.LeadsInto F) (dereference h) :=
  (local_checkAccess hh).bind fun _ _ => local_elementOf hh

theorem local_dereferenceView (hh : h.LeadsInto F) :
    Local F (fun v => ∀ a, v.data = some a → a.region.In F) (dereferenceView h) := by
  refine (local_checkAccess hh).bind fun _ _ => ?_
  cases href : h.ref with
  | view v =>
    refine local_pure fun a ha => hh.address a ?_
    rw [href]
    exact ha
  | object | items => exact local_pure fun a ha => by cases ha

theorem local_lookThrough (hh : h.LeadsInto F) : Local F (fun _ => True) (lookThrough h) :=
  local_ite ((local_dereferenceView hh).bind fun _ _ => local_pure trivial)
    ((local_dereference hh).bind fun _ _ => local_pure trivial)

/-- A value is written where the handle refers to, if it refers to anything. -/
theorem local_writeThrough (hh : h.LeadsInto F) (hv : v.LeadsInto F) :
    Local F (fun _ => True) (match h.ref.address with
      | some a => writeObject a.region v
      | none => pure ()) := by
  cases ha : h.ref.address with
  | none => exact local_pure trivial
  | some a => exact local_writeObject (hh.address a ha) hv

theorem local_changeThrough (hh : h.LeadsInto F) {f : Value → Value} (hf : Value.KeepsLink f) :
    Local F (fun _ => True) (changeThrough h f) :=
  (local_dereference hh).bind fun _ hv => local_writeThrough hh (hv.change hf)

theorem local_checkIndex (hh : h.LeadsInto F) (i : Nat) : Local F (fun _ => True) (checkIndex h i) :=
  (local_checkAccess hh).bind fun _ _ => local_ite (local_throw _) (local_pure trivial)

theorem local_readItem (hh : h.LeadsInto F) (i : Nat) : Local F (fun _ => True) (readItem h i) :=
  (local_checkIndex hh i).bind fun _ _ => (local_elementOf hh).bind fun _ _ => local_pure trivial

theorem local_writeItem (hh : h.LeadsInto F) (i : Nat) (n : Int32) : Local F (fun _ => True) (writeItem h i n) :=
  (local_checkIndex hh i).bind fun _ _ => (local_elementOf hh).bind fun _ hv =>
    local_writeThrough hh (hv.change (Value.keepsLink_setItem i n))

theorem local_callThrough {view : View} (hview : ∀ a, view.data = some a → a.region.In F) (m : Method) :
    Local F (fun _ => True) (callThrough view m) := by
  unfold callThrough
  split
  · exact local_throw _
  · exact local_throw _
  · next t a _ hdata =>
    have hr := hview a hdata
    refine local_get_bind fun w u hw => ?_
    have hsame : w.objectAs a.region t = u.objectAs a.region t := by
      unfold World.objectAs
      rw [hw.coincide.object? hr]
    have hafter := (hw.closed.objectAs hr t).change (Value.keepsLink_call m)
    rw [← hsame]
    refine ((local_writeObject hr hafter).bind fun _ _ => ?_) w u hw
    split
    · exact local_pure trivial
    · exact local_throw _

/-! ### Taking values out -/

theorem Value.LeadsInto.source (hv : v.LeadsInto F) : v.moveTransfer.source.LeadsInto F := by
  cases hm : v.movesByCopy with
  | true =>
    rw [source_of_movesByCopy hm]
    exact hv
  | false =>
    obtain ⟨-, hp, hn⟩ := source_moveTransfer hm
    refine ⟨hp.trans hv.passive, fun g hg => ?_⟩
    rw [hn] at hg
    obtain ⟨k, hk, rfl⟩ := Option.map_eq_some_iff.mp hg
    exact (hv.next k hk).cleared

theorem local_shareNext (hv : v.LeadsInto F) : Local F (fun _ => True) (shareNext v) := by
  unfold shareNext
  cases hn : v.next? with
  | none => exact local_pure trivial
  | some h =>
    dsimp only
    split
    · next s _ hs => exact local_onControl ((hv.next h hn).slot s hs) _
    · exact local_pure trivial

theorem local_transfer {t : Transfer} (hq : Quiet t.events) (hv : t.value.LeadsInto F) (byCopy : Bool) :
    Local F (fun _ => True) (transfer t byCopy) := by
  refine (local_quiet hq).bind fun _ _ => local_ite ?_ (local_pure trivial)
  split
  · exact (local_quiet (quiet_unwinding _)).bind fun _ _ => local_throw _
  · exact local_shareNext hv

theorem local_moveValue (hv : v.LeadsInto F) :
    Local F (fun t => t.value.LeadsInto F ∧ t.source.LeadsInto F) (moveValue v) := by
  have hvalue : v.moveTransfer.value.LeadsInto F := by rwa [value_moveTransfer]
  exact (local_transfer (quiet_moveTransfer v) hvalue _).bind fun _ _ => local_pure ⟨hvalue, hv.source⟩

theorem local_copyValue (hv : v.LeadsInto F) :
    Local F (fun t => t.value.LeadsInto F ∧ t.source.LeadsInto F) (copyValue v) :=
  (local_transfer (t := v.copyTransfer) (quiet_copyTransfer v) hv true).bind fun _ _ => local_pure ⟨hv, hv⟩

theorem local_takeValue (hp : p.In F) : Local F (fun v => v.LeadsInto F) (takeValue p) := by
  refine (local_readHandle hp).bind fun h hh => ?_
  cases hs : h.slot with
  | none => exact local_throw _
  | some s =>
    have hmoved : Local F (fun v => v.LeadsInto F) (do
        let v ← elementOf h
        let t ← if h.elem.quals.isConst then copyValue v else moveValue v
        match h.ref.address with
        | some a => writeObject a.region t.source
        | none => pure ()
        resetHandle p
        return t.value) := by
      refine (local_elementOf hh).bind fun v hv => ?_
      have hrest : ∀ t : Transfer, t.value.LeadsInto F ∧ t.source.LeadsInto F → Local F (fun v => v.LeadsInto F) (do
          match h.ref.address with
          | some a => writeObject a.region t.source
          | none => pure ()
          resetHandle p
          return t.value) := by
        intro t ht
        have hreset : Local F (fun v => v.LeadsInto F) (do resetHandle p; return t.value : Act Value) :=
          (local_resetHandle hp).bind fun _ _ => local_pure ht.1
        cases ha : h.ref.address with
        | none => exact hreset
        | some a => exact (local_writeObject (hh.address a ha) ht.2).bind fun _ _ => hreset
      exact local_ite ((local_copyValue hv).bind hrest) ((local_moveValue hv).bind hrest)
    exact (local_controlNow (hh.slot s hs)).bind fun _ _ =>
      local_ite ((local_throw _).bind fun _ (_ : True) => hmoved) hmoved

end SlotHandles
