import SlotHandles.Proofs.Relinking
import SlotHandles.Proofs.Factories

/-!
# What it takes to take a value out

A value is moved or copied out of its slot, then what is left of it is torn down.  A copy of a value that shares
another one counts the share up, and the teardown counts it down again; a moved value takes its handle along.  So no
slot but its own notices that the value is gone (`World.TakenOut`).

The one exception is a handle stored in the value that it owns.  It goes along with the value, so nothing is left to
tear down the slot with (`World.TakenAlong`).
-/

namespace SlotHandles

open World

variable {w w' u : World} {s : SlotId} {v : Value} {h : Handle} {p : Holder} {x : Transfer} {M : Multiset Handle}
  {slots : Table SlotId Slot}

/-! ### Moving and copying out -/

/-- Move the value out, or copy it if the handle is one of constants. -/
def Handle.extraction (h : Handle) (v : Value) : Act Transfer :=
  if h.elem.quals.isConst then copyValue v else moveValue v

/-- The value is copied out: it is constant, or its type cannot be moved. -/
def Value.leavesByCopy (v : Value) (isConst : Bool) : Bool := isConst || v.movesByCopy

/-- The value that comes out, and what is left of it. -/
def Value.takenOut (v : Value) (isConst : Bool) : Transfer := if isConst then v.copyTransfer else v.moveTransfer

theorem extraction_eq (h : Handle) (v : Value) :
    h.extraction v = (do
      transfer (v.takenOut h.elem.quals.isConst) (v.leavesByCopy h.elem.quals.isConst)
      return v.takenOut h.elem.quals.isConst) := by
  unfold Handle.extraction
  cases h.elem.quals.isConst <;> rfl

namespace Value

theorem value_takenOut (v : Value) (isConst : Bool) : (v.takenOut isConst).value = v := by
  cases isConst with
  | true => rfl
  | false => exact value_moveTransfer v

theorem begins_takenOut (v : Value) (isConst : Bool) : Begins (v.takenOut isConst).events := by
  cases isConst with
  | true => exact begins_copyTransfer v
  | false => exact begins_moveTransfer v

theorem quiet_takenOut (v : Value) (isConst : Bool) : Quiet (v.takenOut isConst).events := by
  cases isConst with
  | true => exact quiet_copyTransfer v
  | false => exact quiet_moveTransfer v

/-- What is left of a value that is copied is the value, and what is left of one that is moved stores no more than an
empty handle. -/
theorem source_takenOut (v : Value) (isConst : Bool) :
    (v.takenOut isConst).source.type = v.type ∧
      (v.takenOut isConst).source.next?.bind Handle.stake? =
        if v.leavesByCopy isConst then v.next?.bind Handle.stake? else none := by
  cases isConst with
  | true => exact ⟨rfl, rfl⟩
  | false =>
    change v.moveTransfer.source.type = v.type ∧ v.moveTransfer.source.next?.bind Handle.stake? =
      if v.movesByCopy then v.next?.bind Handle.stake? else none
    cases hm : v.movesByCopy with
    | true =>
      rw [source_of_movesByCopy hm]
      exact ⟨rfl, rfl⟩
    | false =>
      obtain ⟨ht, -, hn⟩ := source_moveTransfer hm
      refine ⟨ht, ?_⟩
      rw [hn]
      cases v.next? <;> rfl

/-- A copy that is refused has copied one part, and destroys it again. -/
theorem unwound_takenOut {refusal : Thrown} (hr : v.copyRefusal? = some refusal) (isConst : Bool) :
    Unwound ((v.takenOut isConst).events ++ v.unwinding) := by
  cases v with
  | picky t n => cases isConst <;> rfl
  | _ => cases hr

/-- A value that can be taken out announces no more at its end than its parting. -/
theorem lastWords_of_movable (hm : v.type.movable) (c : ControlBlock) : v.lastWords c = v.parting := by
  cases v with
  | probe id onBuild onDestroy => cases hm
  | _ => rfl

end Value

/-- The world in which a share of a value has been counted, if there is one. -/
def World.lent (w : World) : Option Stake → World
  | none => w
  | some k => w.countedUp k.slot

theorem World.controlOf_lent {rest : Option Stake} {t : SlotId} (ht : t ∉ rest.map Stake.slot) :
    (w.lent rest).controlOf t = w.controlOf t := by
  cases rest with
  | none => rfl
  | some k => exact controlOf_setControl_of_ne _ _ fun e => ht (by rw [e]; rfl)

theorem World.controlOf_lent_self {rest : Option Stake} {k : Stake} (hk : k ∈ rest)
    (hcount : ((w.lent rest).controlOf k.slot).count ≠ 0) :
    (w.lent rest).controlOf k.slot = { w.controlOf k.slot with count := (w.controlOf k.slot).count + 1 } := by
  obtain rfl : rest = some k := hk
  have hx : ((w.countedUp k.slot).slots.find? k.slot).isSome := find?_isSome_of_count hcount
  unfold countedUp at hx
  rw [find?_setControl, if_pos rfl, Option.isSome_map] at hx
  exact controlOf_setControl_self _ hx

theorem World.trace_lent (rest : Option Stake) : (w.lent rest).trace = w.trace := by
  cases rest <;> rfl

/-- The share of a copy is counted, unless the count is at its limit. -/
theorem shareNext_lends (hw : w.Sound M) (hl : w.nestedIn s = v.next?)
    (hv : ∀ g, v.next? = some g → g.family = .shared) :
    Ends (shareNext v) w
      (fun _ u => u = w.lent (v.next?.bind Handle.stake?) ∧
        ∀ k ∈ v.next?.bind Handle.stake?, k.family = .shared ∧ 1 < (u.controlOf k.slot).count.toNat)
      (fun f _ => w.Overflows f) := by
  unfold shareNext
  cases hn : v.next? with
  | none => exact ⟨rfl, fun k hk => (Option.not_mem_none k hk).elim⟩
  | some g =>
    have hf := hv g hn
    dsimp only
    cases hs : g.slot with
    | none =>
      have hnone : (some g).bind Handle.stake? = none := by simp [Handle.stake?, hs]
      rw [hf, hnone]
      exact ⟨rfl, fun k hk => (Option.not_mem_none k hk).elim⟩
    | some a =>
      have hsome : (some g).bind Handle.stake? = some ⟨a, .shared⟩ := by simp [Handle.stake?, hs, hf]
      rw [hf, hsome]
      have hmem := hw.mem_of_live (p := .inside s) (hl.trans hn)
      have hpos := hw.balanced.shared_count hmem hf hs
      have hocc := hw.balanced.occupied hmem hs
      have hcount := hw.balanced.count_eq hocc
      refine (hw.addReference hmem hf hs).mono ?_ fun f u hfull => ⟨hfull.1, a, hocc, hfull.2⟩
      rintro - u ⟨rfl, hmax, -⟩
      refine ⟨rfl, ?_⟩
      rintro _ ⟨⟩
      refine ⟨rfl, ?_⟩
      have hself := controlOf_setControl_self (w := w)
        { w.controlOf a with count := (w.controlOf a).count + 1 } (find?_isSome_of_occupied hocc)
      unfold World.countedUp
      rw [hself]
      dsimp only
      rw [toNat_add_one hmax]
      omega

/-- A transfer announces what it does and counts the share of a copy, unless the copy is refused or the count is at its
limit. -/
theorem transfer_lends (hw : w.Sound M) (hl : w.nestedIn s = v.next?) (hx : x.value = v) (byCopy : Bool)
    (hv : byCopy = true → ∀ g, v.next? = some g → g.family = .shared) :
    Ends (transfer x byCopy) w
      (fun _ u => ∃ rest, rest = (if byCopy then v.next?.bind Handle.stake? else none) ∧
        u = (w.log x.events).lent rest ∧
        ∀ k ∈ rest, k.family = .shared ∧ 1 < (u.controlOf k.slot).count.toNat)
      (fun f u => (∃ refusal, v.copyRefusal? = some refusal ∧ f = .exception refusal ∧
        u = w.log (x.events ++ v.unwinding)) ∨ w.Overflows f) := by
  subst hx
  unfold transfer
  rw [ends_bind, ends_of_ok (recordAll_apply ..)]
  cases byCopy with
  | false => exact ⟨none, rfl, rfl, fun k hk => (Option.not_mem_none k hk).elim⟩
  | true =>
    rw [if_pos rfl]
    cases hr : x.value.copyRefusal? with
    | some refusal => exact .inl ⟨refusal, rfl, rfl, log_log ..⟩
    | none =>
      refine (shareNext_lends (hw.log x.events) hl (hv rfl)).mono ?_ fun _ _ hfull => .inr hfull
      rintro - u ⟨rfl, hmore⟩
      exact ⟨_, rfl, rfl, hmore⟩

/-! ### Tearing down the rest -/

/-- The value has left its slot, in the transfer `x`: its slot is empty, since what was left of it has been destroyed,
and its handle is empty.  No other slot has changed, be it one that a handle in the value owns. -/
structure World.TakenOut (w : World) (p : Holder) (h : Handle) (s : SlotId) (v : Value) (x : Transfer) (w' : World) :
    Prop where
  emptied : w'.live? p = some h.cleared
  vacated : (w'.controlOf s).state = .empty
  trace : w'.trace = w.trace ++ x.events ++ .destructed s v.type :: x.source.parting
  blocks : ∀ t, t ≠ s → w'.controlOf t = w.controlOf t
  stored : ∀ t, t ≠ s → w'.storageOf t = (w.setHandle p h.cleared).storageOf t
  places : ∀ q, q ≠ p → q ≠ .inside s → w'.live? q = w.live? q
  passed : ∀ g t, v.next? = some g → g.slot = some t → t ≠ s ∧ (w'.controlOf t).state = .occupied

theorem World.storageOf_setHandle_congr {t : SlotId} (ht : u.storageOf t = w.storageOf t) (p : Holder) (g : Handle) :
    (u.setHandle p g).storageOf t = (w.setHandle p g).storageOf t := by
  by_cases hp : p = .inside t
  · subst hp
    cases hv : w.storageOf t with
    | none =>
      unfold setHandle
      dsimp only
      rw [ht, hv]
      dsimp only
      rw [ht, hv]
    | some v =>
      have hx : ∀ w : World, w.storageOf t = some v → (w.slots.find? t).isSome := fun w hv =>
        storageOf_isSome (by rw [hv]; rfl)
      rw [hv] at ht
      rw [setHandle_inside hv, setHandle_inside ht, storageOf_setStorage_self _ (hx w hv),
        storageOf_setStorage_self _ (hx u ht)]
  · rw [storageOf_setHandle_of_ne hp, storageOf_setHandle_of_ne hp, ht]

/-- The value has been transferred out of the slot of its only handle, which is not stored in it.  `rest` is the share
that was counted for a copy, and that what is left of the value has to give back. -/
structure World.Leaving (w : World) (M : Multiset Handle) (p : Holder) (h : Handle) (s : SlotId) (v : Value)
    (x : Transfer) (rest : Option Stake) (u : World) : Prop where
  live : w.live? p = some h
  unique : h.family = .unique
  slot : h.slot = some s
  apart : p ≠ .inside s
  occupied : (w.controlOf s).state = .occupied
  movable : v.type.movable
  extracted : Extracted w M s v x u
  type : x.source.type = v.type
  left : x.source.next?.bind Handle.stake? = rest
  lent : u = (w.log x.events).lent rest
  shared : ∀ k ∈ rest, k.family = .shared ∧ 1 < (u.controlOf k.slot).count.toNat

namespace World.Leaving

variable {rest : Option Stake} (hx : w.Leaving M p h s v x rest u)

include hx

/-- The handle is where it was. -/
theorem live_rest : (u.setStorage s x.source).live? p = some h :=
  (live?_setStorage_of_ne hx.apart _).trans ((hx.extracted.counts.live? p).trans hx.live)

theorem state_rest : (u.controlOf s).state = .occupied := (hx.extracted.counts.calm.state s).trans hx.occupied

theorem count_rest : (u.controlOf s).count = 1 := by
  rw [← controlOf_setStorage u s s x.source]
  exact hx.extracted.sound.balanced.count_of_unique (hx.extracted.sound.mem_of_live hx.live_rest) hx.unique hx.slot

theorem storageOf_rest : ((u.setStorage s x.source).setHandle p h.cleared).storageOf s = some x.source :=
  (storageOf_setHandle_of_ne hx.apart _).trans (storageOf_setStorage_self _ (find?_isSome_of_occupied hx.state_rest))

/-- What is left of the value is torn down, and the share of a copy is given back. -/
theorem unravels :
    ((u.setStorage s x.source).setHandle p h.cleared).Unravels h.stake? [⟨s, .unique⟩] rest := by
  have hstake : h.stake? = some ⟨s, .unique⟩ := by simp [Handle.stake?, hx.slot, hx.unique]
  have hnext : ((u.setStorage s x.source).setHandle p h.cleared).stakeIn s = rest := by
    unfold stakeIn
    rw [nestedIn_of_occupied (by rw [controlOf_setHandle, controlOf_setStorage, hx.state_rest]), hx.storageOf_rest]
    exact hx.left
  rw [hstake]
  have hcontrol : ∀ t, ((u.setStorage s x.source).setHandle p h.cleared).controlOf t = u.controlOf t := fun t => by
    rw [controlOf_setHandle, controlOf_setStorage]
  refine ⟨.along (by rw [hcontrol, hx.state_rest]) (by rw [hcontrol, hx.count_rest]) (hnext ▸ .here _), fun k hk => ?_⟩
  rw [hcontrol]
  exact hx.shared k hk

/-- The counts of the other slots are as before: a share that was counted has been given back. -/
theorem blocks (hw : ((u.setStorage s x.source).setHandle p h.cleared).Unraveled [⟨s, .unique⟩] rest w')
    {t : SlotId} (ht : t ≠ s) : w'.controlOf t = w.controlOf t := by
  by_cases hmem : t ∈ rest.map Stake.slot
  · obtain ⟨k, hk, rfl⟩ := Option.mem_map.mp hmem
    have hne : (u.controlOf k.slot).count ≠ 0 := by
      intro h0
      have hmore := (hx.shared k hk).2
      rw [h0] at hmore
      exact absurd hmore (by decide)
    have hcounted : u.controlOf k.slot = { w.controlOf k.slot with count := (w.controlOf k.slot).count + 1 } := by
      rw [hx.lent] at hne ⊢
      exact controlOf_lent_self hk hne
    rw [hw.released k hk, controlOf_setHandle, controlOf_setStorage, hcounted]
    simp
  · rw [hw.kept t (by simpa using ht) hmem, controlOf_setHandle, controlOf_setStorage, hx.lent, controlOf_lent hmem]
    rfl

/-- A handle in the value owns another slot, and that one holds a value. -/
theorem passed {g : Handle} {t : SlotId} (hg : v.next? = some g) (hgt : g.slot = some t) :
    t ≠ s ∧ (w.controlOf t).state = .occupied := by
  have htallies := hx.extracted.sound.tallies.lift hx.live_rest
  have hmem : g ∈ (v.next?.toList : Multiset Handle) + M := by
    rw [hg]
    simp
  have howned := (htallies.owned h (by simp) s hx.slot).2
  rw [Multiset.cons_add] at howned
  have hlive := (htallies.owned g (by simp [hmem]) t hgt).1
  rw [controlOf_setHandle, controlOf_setStorage, hx.extracted.counts.calm.state] at hlive
  refine ⟨?_, hlive⟩
  rintro rfl
  refine howned.slot_ne_of_alone hx.slot ?_ (Multiset.mem_add.mpr (.inl hmem)) hgt
  rw [controlOf_setHandle, controlOf_setStorage, hx.count_rest]

theorem takenOut (hw : ((u.setStorage s x.source).setHandle p h.cleared).Unraveled [⟨s, .unique⟩] rest w') :
    w.TakenOut p h s v x w' := by
  have hplaces : ∀ q, q ≠ .inside s → w'.live? q = ((u.setStorage s x.source).setHandle p h.cleared).live? q := by
    intro q hq
    exact hw.live? fun k hk => by rwa [List.mem_singleton.mp hk]
  refine ⟨?_, ?_, ?_, fun t ht => hx.blocks hw ht, fun t ht => ?_, fun q hqp hqs => ?_, fun g t hg hgt => ?_⟩
  · rw [hplaces p hx.apart]
    exact live?_setHandle_self hx.live_rest _
  · rw [hw.ended _ (List.mem_singleton_self _)]
    rfl
  · rw [hw.trace, trace_setHandle, List.flatMap_singleton]
    unfold obituary
    rw [hx.storageOf_rest]
    dsimp only
    rw [Value.lastWords_of_movable (hx.type ▸ hx.movable), hx.type, hx.lent]
    exact congrArg (· ++ _) (trace_lent rest)
  · rw [hw.stored t (by simpa using ht)]
    refine storageOf_setHandle_congr ?_ p h.cleared
    rw [storageOf_setStorage_of_ne _ _ ht, hx.extracted.counts.storage]
  · rw [hplaces q hqs, live?_setHandle_of_ne hqp, live?_setStorage_of_ne hqs, hx.extracted.counts.live?]
  · obtain ⟨hts, hlive⟩ := hx.passed hg hgt
    exact ⟨hts, by rw [hx.blocks hw hts, hlive]⟩

theorem run :
    ∃ w', (do
        writeObject (.slot s) x.source
        resetHandle p
        return x.value) u = .ok v w' ∧ w.TakenOut p h s v x w' := by
  have htallies := hx.extracted.sound.tallies.lift hx.live_rest
  obtain ⟨w', hrun, hw'⟩ := hx.unravels.release htallies.slots htallies.housed (List.nodup_singleton _)
  refine ⟨w', ?_, hx.takenOut hw'⟩
  have hreset := (resetHandle_of_owner hx.live_rest fun _ => by simp [hx.slot]).trans hrun
  refine (bind_of_ok (writeObject_apply ..)).trans ((bind_of_ok hreset).trans ?_)
  rw [← hx.extracted.value]
  rfl

end World.Leaving

/-! ### Taking -/

/-- The value has been taken along with the handle that it stores and that owns it.  Nothing was left to tear the slot
down with, so it still holds what is left of the value. -/
structure World.TakenAlong (w : World) (h : Handle) (s : SlotId) (v : Value) (x : Transfer) (w' : World) : Prop where
  along : v.next? = some h
  emptied : w'.live? (.inside s) = some h.cleared
  trace : w'.trace = w.trace
  blocks : ∀ t, w'.controlOf t = w.controlOf t
  stored : w'.storageOf s = some x.source
  elsewhere : ∀ t, t ≠ s → w'.storageOf t = w.storageOf t
  outside : w'.held = w.held ∧ w'.bag = w.bag ∧ w'.values = w.values

/-- A handle of the value's own type looks at the value before it is transferred out. -/
theorem takeValue_eq (hw : w.Sound M) (hl : w.live? p = some h) (ht : h.elem.isTakeable) (hs : h.slot = some s)
    (hv : w.storageOf s = some v) (htype : w.typeIn s = some v.type) (hsame : v.type.ty = h.elem.identity) :
    takeValue p w = (do
      let x ← h.extraction v
      writeObject (.slot s) x.source
      resetHandle p
      return x.value) w := by
  simp only [Ty.isTakeable, Run.takeable, Bool.and_eq_true, Bool.not_eq_true'] at ht
  obtain ⟨⟨⟨hview, hblock⟩, -⟩, -⟩ := ht
  obtain ⟨t, ht', hd⟩ := (Handle.refersIn_of_slot_eq_some hs).mp (hw.refersIn_of_live hl)
  obtain ⟨k, -, href⟩ := (Referent.denotes_object_iff hview hblock).mp hd
  have haddr : h.ref.address = some ⟨.slot s, k⟩ := by
    rw [href]
    rfl
  unfold takeValue
  rw [bind_of_ok (readHandle_apply hl), hs]
  dsimp only
  rw [bind_of_ok (controlNow_apply ..), ControlBlock.holds_of_heldType htype, decide_eq_true hsame, if_neg (by simp),
    bind_of_ok (elementOf_apply haddr hv), haddr]
  unfold Handle.extraction
  cases h.elem.quals.isConst <;> rfl

/-- A node that owns itself is moved out with its handle, and the empty handle that stays behind has nothing to tear
down. -/
theorem takeOwn_apply {id : Int32} (hl : w.live? (.inside s) = some h) (hf : h.family = .unique) :
    ∃ w', (do
        writeObject (.slot s) (.node (-1) h.cleared)
        resetHandle (.inside s)
        return Value.node id h) (w.log []) = .ok (.node id h) w' ∧
      w.TakenAlong h s (.node id h) (Value.node id h).moveTransfer w' := by
  have ho := (nestedIn_eq_some_iff.mp hl).1
  have hself : (w.setStorage s (.node (-1) h.cleared)).storageOf s = some (.node (-1) h.cleared) :=
    storageOf_setStorage_self _ (find?_isSome_of_occupied ho)
  have hlive : (w.setStorage s (.node (-1) h.cleared)).live? (.inside s) = some h.cleared :=
    nestedIn_eq_some_iff.mpr ⟨by rwa [controlOf_setStorage], _, hself, rfl⟩
  have hreset : resetHandle (.inside s) (w.setStorage s (.node (-1) h.cleared)) =
      .ok () (w.setStorage s (.node (-1) h.cleared)) := by
    unfold resetHandle
    rw [bind_of_ok (readHandle_apply hlive), Handle.family_cleared, Handle.slot_cleared, hf]
    rfl
  refine ⟨w.setStorage s (.node (-1) h.cleared), ?_, rfl, hlive, rfl, fun t => controlOf_setStorage .., hself,
    fun t ht => storageOf_setStorage_of_ne _ _ ht, rfl, rfl, rfl⟩
  rw [log_nil]
  exact (bind_of_ok (writeObject_apply ..)).trans (bind_of_ok hreset)

/-- A transfer out of a slot goes well, or is refused, or finds the count of a shared handle at its limit. -/
theorem extraction_ends (hw : w.Sound M) (ho : (w.controlOf s).state = .occupied) (hv : w.storageOf s = some v)
    (ht : h.elem.isTakeable) (hsame : v.type.ty = h.elem.identity) :
    Ends (h.extraction v) w
      (fun x u => Extracted w M s v x u ∧ x = v.takenOut h.elem.quals.isConst ∧
        ∃ rest, x.source.next?.bind Handle.stake? = rest ∧ u = (w.log x.events).lent rest ∧
          ∀ k ∈ rest, k.family = .shared ∧ 1 < (u.controlOf k.slot).count.toNat)
      (fun f u => (∃ t es, f = .exception t ∧ u = w.log es ∧ Quiet es ∧ Unwound es) ∨ w.Overflows f) := by
  obtain ⟨-, hnested, hproper⟩ := hw.balanced.value_of_storage ho hv
  have hcopyable : h.elem.quals.isConst = true → v.type.copyable := Ty.copyable_of_isTakeable ht hsame
  have hshared : v.leavesByCopy h.elem.quals.isConst = true → ∀ g, v.next? = some g → g.family = .shared := by
    intro hc g hg
    rcases Bool.or_eq_true .. ▸ hc with hc | hm
    · exact hproper.shared (.inl (hcopyable hc)) hg
    · exact hproper.shared (.inr hm) hg
  have hsound : Ends (h.extraction v) w (fun x u => Extracted w M s v x u)
      (fun f w' => w.Fails M (TooMany w) f w') := by
    unfold Handle.extraction
    cases hc : h.elem.quals.isConst with
    | true =>
      rw [if_pos rfl]
      exact copyValue_ends hw ho hv (hcopyable hc)
    | false =>
      rw [if_neg (by simp)]
      exact moveValue_ends hw ho hv
  have hlends := transfer_lends hw hnested (v.value_takenOut h.elem.quals.isConst) _ hshared
  have hexact : Ends (h.extraction v) w
      (fun x u => x = v.takenOut h.elem.quals.isConst ∧ ∃ rest,
        rest = (if v.leavesByCopy h.elem.quals.isConst then v.next?.bind Handle.stake? else none) ∧
        u = (w.log x.events).lent rest ∧ ∀ k ∈ rest, k.family = .shared ∧ 1 < (u.controlOf k.slot).count.toNat)
      (fun f u => (∃ t es, f = .exception t ∧ u = w.log es ∧ Quiet es ∧ Unwound es) ∨ w.Overflows f) := by
    rw [extraction_eq, ends_bind]
    refine hlends.mono (fun _ u hu => ⟨rfl, hu⟩) ?_
    rintro f u (⟨refusal, hr, rfl, rfl⟩ | hfull)
    · exact .inl ⟨refusal, _, rfl, rfl, (v.quiet_takenOut _).append (quiet_unwinding v), v.unwound_takenOut hr _⟩
    · exact .inr hfull
  refine (hsound.and hexact).mono ?_ fun f u hf => hf.2
  rintro x u ⟨hx, rfl, rest, hrest, hu, hmore⟩
  exact ⟨hx, rfl, rest, by rw [(v.source_takenOut _).2, hrest], hu, hmore⟩

/-- A node that owns itself. -/
def ownedNode : World where
  slots := [(.numbered 0, ownNodeSlot 0 1 (ownNode (.numbered 0))), (.numbered 1, ⟨.fresh 64 64, none⟩)]
  held := [(.named "node", .empty .unique (.ofKind .node))]
  bag := []
  values := []
  trace := [.constructed (.numbered 0) (.single .node)]

theorem ownedNode_reachable : Reachable twoSlots ownedNode := by
  have hnode : Reachable twoSlots _ :=
    .advance (.make (.named "node") (.numbered 0) .unique (.ofKind .node) (.arguments (Seed.ofNode 1)) false)
      .start ⟨⟨rfl, rfl⟩, rfl, rfl, rfl, rfl, rfl⟩ rfl rfl
  exact .assign (.assignByMove (.inside (.numbered 0)) (.named "node")) hnode ⟨_, _, rfl, rfl, rfl, rfl⟩ rfl rfl

end SlotHandles
