import SlotHandles.Proofs.Tracking

/-!
# The count during an occupation

From the publication of a value to the start of its destructor a slot is occupied, and its references are counted in a
word of 32 bits.  Whatever is called in between, as long as nothing is reported, the word is what the integers say: one,
and one more for each reference that was added, less one for each that was dropped (`tally`).

The word wraps before it is judged, but a count that wrapped is reported at once, so no later call finds one.  The count
reaches zero only by the drop that starts the destructor (`count_exact_while_occupied`).
-/

namespace SlotHandles

open World

namespace ControlBlock.Course

variable {c c' c₀ c₁ d : Course} {call : Call} {calls before during : List Call} {t : StoredType}

/-- What the count of a slot should be after the calls that followed the publication of its value. -/
def tally (calls : List Call) : Int := 1 + calls.count .addReference - calls.count .dropReference

theorem tally_add (calls : List Call) : tally (calls ++ [.addReference]) = tally calls + 1 := by
  have hadd : (calls ++ [Call.addReference]).count .addReference = calls.count .addReference + 1 := by simp
  have hdrop : (calls ++ [Call.addReference]).count .dropReference = calls.count .dropReference := by simp
  unfold tally
  rw [hadd, hdrop]
  omega

theorem tally_drop (calls : List Call) : tally (calls ++ [.dropReference]) = tally calls - 1 := by
  have hadd : (calls ++ [Call.dropReference]).count .addReference = calls.count .addReference := by simp
  have hdrop : (calls ++ [Call.dropReference]).count .dropReference = calls.count .dropReference + 1 := by simp
  unfold tally
  rw [hadd, hdrop]
  omega

theorem tally_of_ne (calls : List Call) (hadd : call ≠ .addReference) (hdrop : call ≠ .dropReference) :
    tally (calls ++ [call]) = tally calls := by
  simp [tally, hadd, hdrop]

/-! ### Destructors that were started -/

theorem tearDown_endings {counted : Bool} (h : tearDown counted c = .ok () c') (ht : c.block.type = some t) :
    c'.endings = c.endings ++ [⟨t, counted⟩] := by
  obtain ⟨-, ⟨u, hu, rfl⟩ | ⟨hnone, -⟩⟩ := tearDown_ok h
  · obtain rfl : u = t := Option.some_inj.mp (hu.symm.trans ht)
    rfl
  · rw [ht] at hnone
    cases hnone

theorem tearDown_endings_cases {counted : Bool} (h : tearDown counted c = .ok () c') :
    c'.endings = c.endings ∨ ∃ e, c'.endings = c.endings ++ [e] := by
  obtain ⟨-, ⟨u, -, rfl⟩ | ⟨-, rfl⟩⟩ := tearDown_ok h
  · exact .inr ⟨_, rfl⟩
  · exact .inl rfl

/-- A call starts no destructor, unless it is a teardown or the drop of the last reference. -/
theorem perform_endings (h : perform call c = .ok () c') :
    c'.endings = c.endings ∨
      (call = .teardown ∨ call = .dropReference ∧ c.block.count = 1) ∧ ∃ e, c'.endings = c.endings ++ [e] := by
  cases call with
  | tryClaim => rcases perform_tryClaim_ok h with ⟨-, rfl⟩ | rfl <;> exact .inl rfl
  | publish t =>
    obtain ⟨-, rfl⟩ := perform_publish_ok h
    exact .inl rfl
  | abandon =>
    obtain ⟨-, rfl⟩ := perform_abandon_ok h
    exact .inl rfl
  | teardown => exact (tearDown_endings_cases h).imp id fun he => ⟨.inl rfl, he⟩
  | addReference =>
    obtain ⟨-, -, rfl⟩ := perform_addReference_ok h
    exact .inl rfl
  | dropReference =>
    obtain ⟨-, ⟨-, rfl⟩ | ⟨h1, htear⟩⟩ := perform_dropReference_ok h
    · exact .inl rfl
    · have hcases := tearDown_endings_cases htear
      exact hcases.imp id fun he => ⟨.inr ⟨rfl, h1⟩, he⟩
  | returns => rcases perform_returns_ok h with ⟨-, rfl⟩ | ⟨_, _, -, rfl⟩ <;> exact .inl rfl

/-- No call forgets a destructor that was started. -/
theorem perform_extends (h : perform call c = .ok () c') : c.endings <+: c'.endings := by
  rcases perform_endings h with he | ⟨-, e, he⟩
  · exact he ▸ List.prefix_rfl
  · exact he ▸ List.prefix_append c.endings [e]

theorem exists_perform_returns (c : Course) : ∃ d, perform .returns c = .ok () d := by
  cases hr : c.running with
  | nil =>
    refine ⟨c, bind_eq_ok.mpr ⟨c, c, rfl, ?_⟩⟩
    rw [hr]
    rfl
  | cons t rest =>
    refine ⟨{ c with block := { c.block with state := .empty }, running := rest }, bind_eq_ok.mpr ⟨c, c, rfl, ?_⟩⟩
    rw [hr]
    rfl

theorem performAll_extends (h : performAll calls c = .ok () c') : c.endings <+: c'.endings := by
  induction calls generalizing c with
  | nil =>
    cases h
    exact List.prefix_rfl
  | cons call rest ih =>
    obtain ⟨_, d, hd, hrest⟩ := bind_eq_ok.mp h
    exact (perform_extends hd).trans (ih hrest)

/-! ### Calls while a value is there -/

/-- A value of the type is there, and since its publication its references were counted as the integers say. -/
structure KeepsCount (c : Course) (t : StoredType) (calls : List Call) : Prop where
  state : c.block.state = .occupied
  type : c.block.type = some t
  count : (c.block.count.toNat : Int) = tally calls
  pos : 1 ≤ tally calls

theorem keepsCount_of_publish (h : perform (.publish t) c₀ = .ok () c₁) : c₁.KeepsCount t [] := by
  obtain ⟨-, rfl⟩ := perform_publish_ok h
  exact ⟨rfl, rfl, rfl, by decide⟩

namespace KeepsCount

variable (hc : c.KeepsCount t calls)

include hc

theorem count_ne_zero : c.block.count ≠ 0 := by
  intro h0
  have hpos := hc.pos
  rw [← hc.count, h0] at hpos
  exact absurd hpos (by decide)

theorem count_eq_one_iff : c.block.count = 1 ↔ tally (calls ++ [.dropReference]) = 0 := by
  have hone : (1 : UInt32).toNat = 1 := rfl
  rw [tally_drop, ← hc.count, ← UInt32.toNat_inj, hone]
  omega

theorem count_eq_max_iff : c.block.count = 0xffffffff ↔ tally (calls ++ [.addReference]) = 2 ^ 32 := by
  have hmax : (0xffffffff : UInt32).toNat = 2 ^ 32 - 1 := rfl
  rw [tally_add, ← hc.count, ← UInt32.toNat_inj, hmax]
  omega

/-- The count has not wrapped. -/
theorem tally_lt : tally calls < 2 ^ 32 := by
  have hlt := c.block.count.toNat_lt
  rw [← hc.count]
  omega

theorem same (hadd : call ≠ .addReference) (hdrop : call ≠ .dropReference) : c.KeepsCount t (calls ++ [call]) := by
  have htally := tally_of_ne calls hadd hdrop
  exact ⟨hc.state, hc.type, hc.count.trans htally.symm, htally.symm ▸ hc.pos⟩

theorem added (hmax : c.block.count ≠ 0xffffffff) :
    KeepsCount { c with block := { c.block with count := c.block.count + 1 } } t (calls ++ [.addReference]) := by
  have hadd := toNat_add_one hmax
  have hcount := hc.count
  have htally := tally_add calls
  refine ⟨hc.state, hc.type, ?_, by omega⟩
  dsimp only
  omega

theorem count_sub_one : ((c.block.count - 1).toNat : Int) = tally (calls ++ [.dropReference]) := by
  have h0 := hc.count_ne_zero
  have hle : (1 : UInt32) ≤ c.block.count := by grind
  have hsub : (c.block.count - 1).toNat = c.block.count.toNat - 1 := UInt32.toNat_sub_of_le _ _ hle
  have hcount := hc.count
  have hpos := hc.pos
  rw [tally_drop, hsub]
  omega

theorem dropped (h1 : c.block.count ≠ 1) :
    KeepsCount { c with block := { c.block with count := c.block.count - 1 } } t (calls ++ [.dropReference]) := by
  have hlast : tally (calls ++ [.dropReference]) ≠ 0 := fun h => h1 (hc.count_eq_one_iff.mpr h)
  have hcount := hc.count_sub_one
  exact ⟨hc.state, hc.type, hcount, by omega⟩

/-- A call that starts no destructor leaves a count that has not wrapped. -/
theorem perform (hl : c.Lawful) (h : Course.perform call c = .ok () c') (he : c'.endings = c.endings) :
    c'.KeepsCount t (calls ++ [call]) := by
  have hstate := hc.state
  have hends : ∀ {counted d}, Course.tearDown counted d = .ok () c' → d.endings = c.endings → d.block.type = some t →
      False := by
    intro counted d htear hd ht
    have happend := tearDown_endings htear ht
    rw [hd, he] at happend
    exact absurd happend (by simp)
  cases call with
  | tryClaim =>
    rcases perform_tryClaim_ok h with ⟨hempty, -⟩ | rfl
    · rw [hstate] at hempty
      cases hempty
    · exact hc.same (by decide) (by decide)
  | publish u =>
    have hclaimed := (perform_publish_ok h).1
    rw [hstate] at hclaimed
    cases hclaimed
  | abandon =>
    have hclaimed := (perform_abandon_ok h).1
    rw [hstate] at hclaimed
    cases hclaimed
  | teardown => exact (hends h rfl hc.type).elim
  | addReference =>
    obtain ⟨-, hmax, rfl⟩ := perform_addReference_ok h
    exact hc.added hmax
  | dropReference =>
    obtain ⟨-, ⟨h1, rfl⟩ | ⟨-, htear⟩⟩ := perform_dropReference_ok h
    · exact hc.dropped h1
    · exact (hends htear rfl hc.type).elim
  | returns =>
    -- no destructor of an occupied slot is running
    have hrun := hl.running
    rw [hstate, if_neg (by decide)] at hrun
    rcases perform_returns_ok h with ⟨-, rfl⟩ | ⟨_, _, hcons, -⟩
    · exact hc.same (by decide) (by decide)
    · rw [hrun] at hcons
      cases hcons

/-- Calls that start no destructor leave a count that has not wrapped. -/
theorem performAll (hl : c.Lawful) (h : Course.performAll during c = .ok () d) (he : d.endings = c.endings) :
    d.KeepsCount t (calls ++ during) := by
  induction during generalizing c calls with
  | nil =>
    cases h
    rwa [List.append_nil]
  | cons call rest ih =>
    obtain ⟨_, e, hcall, hrest⟩ := bind_eq_ok.mp h
    have hce := perform_extends hcall
    have hed := performAll_extends hrest
    have hsame : e.endings = c.endings := (List.IsPrefix.eq_of_length_le hce (he ▸ hed.length_le)).symm
    have hd := ih (hc.perform hl hcall hsame) (hl.perform hcall).1 hrest (he.trans hsame.symm)
    rwa [List.append_assoc] at hd

/-! ### The next call -/

/-- A reference more is counted, unless the count is at its limit: then it wraps to zero, and that is reported. -/
theorem addReference : ControlBlock.addReference c.block =
    if tally (calls ++ [.addReference]) = 2 ^ 32 then .error .countOverflow { c.block with count := 0 }
    else .ok () { c.block with count := c.block.count + 1 } := by
  rw [addReference_apply, if_neg hc.count_ne_zero]
  by_cases hmax : c.block.count = 0xffffffff
  · rw [if_pos hmax, if_pos (hc.count_eq_max_iff.mp hmax), hmax]
    rfl
  · rw [if_neg hmax, if_neg fun h => hmax (hc.count_eq_max_iff.mpr h)]

theorem perform_addReference : Course.perform .addReference c =
    if tally (calls ++ [.addReference]) = 2 ^ 32 then
      .error .countOverflow { c with block := { c.block with count := 0 } }
    else .ok () { c with block := { c.block with count := c.block.count + 1 } } := by
  change onBlock ControlBlock.addReference c = _
  unfold onBlock
  rw [hc.addReference]
  by_cases hlimit : tally (calls ++ [.addReference]) = 2 ^ 32
  · rw [if_pos hlimit, if_pos hlimit]
  · rw [if_neg hlimit, if_neg hlimit]

/-- A drop is never reported, and the last one starts the destructor. -/
theorem perform_dropReference : Course.perform .dropReference c =
    if tally (calls ++ [.dropReference]) = 0 then
      .ok () { c with
        block := { c.block with state := .tearingDown, count := 0, type := none }
        running := t :: c.running
        endings := c.endings ++ [⟨t, true⟩] }
    else .ok () { c with block := { c.block with count := c.block.count - 1 } } := by
  have hdrop : onBlock ControlBlock.dropReference c =
      .ok (decide (c.block.count = 1)) { c with block := { c.block with count := c.block.count - 1 } } := by
    unfold onBlock
    rw [dropReference_apply, if_neg hc.count_ne_zero]
  change EStateM.bind _ _ c = _
  unfold EStateM.bind
  rw [hdrop]
  by_cases h1 : c.block.count = 1
  · have hzero : c.block.count - 1 = 0 := by rw [h1]; decide
    rw [decide_eq_true h1, if_pos (hc.count_eq_one_iff.mp h1), hzero]
    exact tearDown_of_some true hc.state hc.type
  · rw [decide_eq_false h1, if_neg fun h => h1 (hc.count_eq_one_iff.mpr h)]
    rfl

theorem exists_perform_dropReference :
    ∃ d, Course.perform .dropReference c = .ok () d ∧
      (d.block.count.toNat : Int) = tally (calls ++ [.dropReference]) := by
  have hrun := hc.perform_dropReference
  by_cases hlast : tally (calls ++ [.dropReference]) = 0
  · rw [if_pos hlast] at hrun
    exact ⟨_, hrun, hlast.symm⟩
  · rw [if_neg hlast] at hrun
    exact ⟨_, hrun, hc.count_sub_one⟩

/-- References can be added up to the limit, and no further. -/
theorem exists_performAll_add_iff (n : Nat) :
    (∃ d, Course.performAll (List.replicate n .addReference) c = .ok () d) ↔ tally calls + n < 2 ^ 32 := by
  induction n generalizing c calls with
  | zero => exact iff_of_true ⟨c, rfl⟩ (by simpa using hc.tally_lt)
  | succ n ih =>
    have hrun := hc.perform_addReference
    have htally := tally_add calls
    have hlt := hc.tally_lt
    rw [List.replicate_succ]
    by_cases hlimit : tally (calls ++ [.addReference]) = 2 ^ 32
    · rw [if_pos hlimit] at hrun
      refine iff_of_false ?_ (by omega)
      rintro ⟨d, hd⟩
      obtain ⟨_, e, he, -⟩ := bind_eq_ok.mp hd
      rw [hrun] at he
      cases he
    · rw [if_neg hlimit] at hrun
      have hnext := ih (hc.added fun hmax => hlimit (hc.count_eq_max_iff.mp hmax))
      have hsum : tally calls + (n + 1 : Nat) = tally (calls ++ [.addReference]) + n := by omega
      rw [hsum, ← hnext]
      constructor
      · rintro ⟨d, hd⟩
        obtain ⟨_, e, he, hrest⟩ := bind_eq_ok.mp hd
        rw [hrun] at he
        cases he
        exact ⟨d, hrest⟩
      · rintro ⟨d, hd⟩
        exact ⟨d, bind_eq_ok.mpr ⟨(), _, hrun, hd⟩⟩

/-- While the slot is occupied, a publication and the return of a claim are reported, and one reference too many. -/
theorem report {v : Violation} (h : Course.perform call c = .error v d) :
    v = .finishingUnclaimed ∨ v = .abandoningUnclaimed ∨
      v = .countOverflow ∧ call = .addReference ∧ tally (calls ++ [.addReference]) = 2 ^ 32 := by
  have hclaimed : c.block.state ≠ .constructing := by
    rw [hc.state]
    decide
  cases call with
  | tryClaim =>
    change EStateM.map _ _ c = _ at h
    unfold EStateM.map at h
    rw [onBlock_tryClaim] at h
    cases h
  | publish u =>
    have happly : onBlock (ControlBlock.publish u) c = .error .finishingUnclaimed c := by
      unfold onBlock
      rw [publish_apply, if_neg hclaimed]
    change EStateM.bind _ _ c = _ at h
    unfold EStateM.bind at h
    rw [happly] at h
    cases h
    exact .inl rfl
  | abandon =>
    change onBlock ControlBlock.abandon c = _ at h
    unfold onBlock at h
    rw [abandon_apply, if_neg hclaimed] at h
    cases h
    exact .inr (.inl rfl)
  | teardown =>
    have hrun := (tearDown_of_some false hc.state hc.type).symm.trans h
    cases hrun
  | addReference =>
    rw [hc.perform_addReference] at h
    split at h
    · next hlimit =>
      cases h
      exact .inr (.inr ⟨rfl, rfl, hlimit⟩)
    · cases h
  | dropReference =>
    rw [hc.perform_dropReference] at h
    split at h <;> cases h
  | returns =>
    obtain ⟨d, hrun⟩ := exists_perform_returns c
    rw [hrun] at h
    cases h

/-- The only report that speaks of an overflow is that of the reference which takes the count over its limit. -/
theorem overflows_iff :
    (∃ v d, Course.perform call c = .error v d ∧ v.message = "Shared reference count overflow.") ↔
      call = .addReference ∧ tally (calls ++ [.addReference]) = 2 ^ 32 := by
  constructor
  · rintro ⟨v, d, hrun, hmessage⟩
    rcases hc.report hrun with rfl | rfl | ⟨-, hover⟩
    · exact absurd hmessage (by decide)
    · exact absurd hmessage (by decide)
    · exact hover
  · rintro ⟨rfl, hlimit⟩
    have hrun := hc.perform_addReference
    rw [if_pos hlimit] at hrun
    exact ⟨_, _, hrun, rfl⟩

/-- A destructor is started by a teardown, or by the drop of the last reference. -/
theorem starts_iff (h : Course.perform call c = .ok () c') :
    c'.endings ≠ c.endings ↔
      call = .teardown ∨ call = .dropReference ∧ tally (calls ++ [.dropReference]) = 0 := by
  constructor
  · intro hne
    rcases perform_endings h with he | ⟨hcall, -⟩
    · exact absurd he hne
    · rwa [hc.count_eq_one_iff] at hcall
  · rintro (rfl | ⟨rfl, hlast⟩)
    · rw [tearDown_endings h hc.type]
      simp
    · rw [hc.perform_dropReference, if_pos hlast] at h
      cases h
      simp

/-! ### Handles to the slot -/

variable {w : World} {s : SlotId} {h : Handle} (hb : w.controlOf s = c.block)

include hb

theorem useCount (hs : h.slot = some s) : (w.useCount h : Int) = tally calls := by
  unfold World.useCount
  rw [hs]
  dsimp only
  rw [World.countOf, hb, hc.count]

/-- A shared handle that is let go of tears the value down if it was the last one, and otherwise only counts. -/
theorem release_shared (hs : h.slot = some s) (hf : h.family = .shared) :
    release h w =
      if tally (calls ++ [.dropReference]) = 0 then
        SlotHandles.tearDown s (w.setControl s { w.controlOf s with count := 0 })
      else .ok () (w.setControl s { w.controlOf s with count := (w.controlOf s).count - 1 }) := by
  have hrun : release h w = dropWith SlotHandles.tearDown s w := by
    unfold release releaseWith
    rw [hs, hf]
    rfl
  have h0 := hc.count_ne_zero
  rw [hrun, dropWith_apply, hb, if_neg h0]
  by_cases h1 : c.block.count = 1
  · have hzero : c.block.count - 1 = 0 := by rw [h1]; decide
    rw [if_pos h1, if_pos (hc.count_eq_one_iff.mp h1), hzero]
  · rw [if_neg h1, if_neg fun h => h1 (hc.count_eq_one_iff.mpr h)]

end KeepsCount

/-- **The count of an occupied slot.**  After a value was published in a slot and any further calls that started no
destructor and were not reported: the value is there and its count is one, and one more for each reference that was
added, less one for each that was dropped, and lies between one and `2 ^ 32 - 1`.  An overflow is reported of the next
call exactly if it adds the reference that would take the count to `2 ^ 32`, and references can be added up to there; a
drop is never reported; and a destructor is started by a teardown or by the drop that takes the count to zero, and by no
other call.  Every handle to the slot shows the count, and the last shared one that is let go of tears the value down. -/
theorem count_exact_while_occupied {address capacity : Nat}
    (hbefore : performAll before (start address capacity) = .ok () c₀)
    (hpublish : perform (.publish t) c₀ = .ok () c₁) (hduring : performAll during c₁ = .ok () c)
    (hlasts : c.endings = c₁.endings) :
    c.block.heldType = some t ∧ (c.block.count.toNat : Int) = tally during ∧
    1 ≤ tally during ∧ tally during ≤ 2 ^ 32 - 1 ∧
    (∀ call, (∃ v d, perform call c = .error v d ∧ v.message = "Shared reference count overflow.") ↔
      call = .addReference ∧ tally (during ++ [.addReference]) = 2 ^ 32) ∧
    (∀ n : Nat, (∃ d, performAll (List.replicate n .addReference) c = .ok () d) ↔ tally during + n < 2 ^ 32) ∧
    (∃ d, perform .dropReference c = .ok () d ∧ (d.block.count.toNat : Int) = tally (during ++ [.dropReference])) ∧
    (∀ call d, perform call c = .ok () d →
      (d.endings ≠ c.endings ↔ call = .teardown ∨ call = .dropReference ∧ tally (during ++ [.dropReference]) = 0)) ∧
    ∀ (w : World) (s : SlotId) (h : Handle), w.controlOf s = c.block → h.slot = some s →
      (w.useCount h : Int) = tally during ∧
      (h.family = .shared → release h w =
        if tally (during ++ [.dropReference]) = 0 then
          SlotHandles.tearDown s (w.setControl s { w.controlOf s with count := 0 })
        else .ok () (w.setControl s { w.controlOf s with count := (w.controlOf s).count - 1 })) := by
  have hlawful := ((lawful_start address capacity).performAll hbefore).perform hpublish
  have hc : c.KeepsCount t during := (keepsCount_of_publish hpublish).performAll hlawful.1 hduring hlasts
  have hlt := hc.tally_lt
  refine ⟨?_, hc.count, hc.pos, by omega, fun _ => hc.overflows_iff, hc.exists_performAll_add_iff,
    hc.exists_perform_dropReference, fun _ _ => hc.starts_iff, ?_⟩
  · unfold heldType
    rw [if_pos hc.state, hc.type]
  · exact fun w s h hb hs => ⟨hc.useCount hb hs, hc.release_shared hb hs⟩

/-! ### A value with two owners -/

/-- A slot in which numbers were published, none of which was destroyed. -/
def sharedNumber (state : Occupancy) (count : UInt32) (types : List StoredType) : Course :=
  ⟨⟨state, count, types.getLast?, 0, 64⟩, [], types, []⟩

theorem count_exact_while_occupied_sharedNumber :
    performAll [.tryClaim] (start 0 64) = .ok () (sharedNumber .constructing 0 []) ∧
    perform (.publish (.single .int)) (sharedNumber .constructing 0 []) =
      .ok () (sharedNumber .occupied 1 [.single .int]) ∧
    performAll [.addReference, .addReference, .tryClaim, .dropReference] (sharedNumber .occupied 1 [.single .int]) =
      .ok () (sharedNumber .occupied 2 [.single .int]) ∧
    ¬ (∃ d, performAll (List.replicate (2 ^ 32 - 2) .addReference) (sharedNumber .occupied 2 [.single .int]) =
      .ok () d) ∧
    ∃ d, performAll (List.replicate (2 ^ 32 - 3) .addReference) (sharedNumber .occupied 2 [.single .int]) =
      .ok () d := by
  have hbefore : performAll [.tryClaim] (start 0 64) = .ok () (sharedNumber .constructing 0 []) := rfl
  have hpublish : perform (.publish (.single .int)) (sharedNumber .constructing 0 []) =
      .ok () (sharedNumber .occupied 1 [.single .int]) := rfl
  have hduring : performAll [.addReference, .addReference, .tryClaim, .dropReference]
      (sharedNumber .occupied 1 [.single .int]) = .ok () (sharedNumber .occupied 2 [.single .int]) := rfl
  obtain ⟨-, -, -, -, -, hadds, -⟩ := count_exact_while_occupied hbefore hpublish hduring rfl
  exact ⟨hbefore, hpublish, hduring, fun h => absurd ((hadds _).mp h) (by decide), (hadds _).mpr (by decide)⟩

end ControlBlock.Course

end SlotHandles
