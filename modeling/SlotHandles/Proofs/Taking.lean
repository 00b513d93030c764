import SlotHandles.Proofs.Drops
import SlotHandles.Proofs.Uses
import SlotHandles.Proofs.Building

/-!
# Taking values out

A value is taken out of its slot through an exclusive handle: it is moved or copied out, the handle it stores goes
along, and the slot is torn down with what is left of the value.  This fails for an empty handle, for a handle of
another type than the value's own, and where a value refuses to be copied or a count cannot go up any more.
-/

namespace SlotHandles

open World

variable {w w' : World} {p : Holder} {h : Handle} {s : SlotId} {v : Value} {M : Multiset Handle} {elem : Ty}

/-! ### What is left of a value -/

/-- What is left of a moved value stores the empty handle of its type. -/
theorem Value.source_moveTransfer (h : v.movesByCopy = false) :
    v.moveTransfer.source.type = v.type ∧ v.moveTransfer.source.isPassive = v.isPassive ∧
      v.moveTransfer.source.next? = v.next?.map Handle.cleared := by
  cases v with
  | collection item items => cases item <;> simp [moveTransfer, copyTransfer, type, isPassive, next?]
  | picky t v => cases h
  | snode id next => cases h
  | _ => exact ⟨rfl, rfl, rfl⟩

theorem Value.source_of_movesByCopy (h : v.movesByCopy) : v.moveTransfer.source = v := by
  cases v <;> first | rfl | cases h

theorem Value.IsProper.source (hv : v.IsProper) (h : v.movesByCopy = false) : v.moveTransfer.source.IsProper := by
  obtain ⟨ht, hp, hn⟩ := source_moveTransfer h
  refine ⟨hp.trans hv.passive, ?_⟩
  intro g hg
  rw [hn, Option.map_eq_some_iff] at hg
  obtain ⟨g', hg', rfl⟩ := hg
  rw [ht]
  exact hv.link g' hg'

theorem Value.IsProper.shared (hv : v.IsProper) (hc : v.type.copyable ∨ v.movesByCopy) {g : Handle}
    (hg : v.next? = some g) : g.family = .shared := by
  have hlink := hv.link g hg
  cases v with
  | snode id next =>
    simp only [Value.type, StoredType.link?, Option.some.injEq, Prod.mk.injEq] at hlink
    exact hlink.1.symm
  | node id next => rcases hc with hc | hc <;> cases hc
  | _ => cases hg

/-! ### Transfers out of slots -/

theorem shareNext_ends (hw : w.Sound M) (hl : w.nestedIn s = v.next?)
    (hv : ∀ g, v.next? = some g → g.family = .shared) :
    Ends (shareNext v) w (fun _ w' => w'.Sound ((v.next?.toList : Multiset Handle) + M) ∧ w.Counts w')
      (fun f _ => w.Overflows f) := by
  unfold shareNext
  cases hn : v.next? with
  | none => exact ⟨by simpa using hw, .refl w⟩
  | some g =>
    have hf := hv g hn
    have hmem : g ∈ M + w.roots + w.nested := hw.mem_of_live (p := .inside s) (hl.trans hn)
    have hcount := countShared_ends hw hmem hf
    unfold countShared at hcount
    dsimp only
    rw [hf]
    cases hs : g.slot with
    | none =>
      rw [hs] at hcount
      simpa using hcount
    | some t =>
      rw [hs] at hcount
      simpa using hcount

def TooMany (w : World) (v : Violation) : Prop := v = .countOverflow ∧ w.Overfull

/-- A value in a slot is copied or moved; a copy shares its handle, or refuses. -/
theorem transfer_ends {t : Transfer} (hw : w.Sound M) (hl : w.nestedIn s = v.next?) (hq : Quiet t.events)
    (ht : t.value = v) (byCopy : Bool) (hv : byCopy = true → ∀ g, v.next? = some g → g.family = .shared) :
    Ends (transfer t byCopy) w
      (fun _ w' => w'.Sound ((if byCopy then (v.next?.toList : Multiset Handle) else 0) + M) ∧ w.Counts w')
      (fun f w' => w.Fails M (TooMany w) f w') := by
  subst ht
  unfold transfer
  rw [ends_bind, ends_of_ok (recordAll_apply ..)]
  cases byCopy with
  | false => exact ⟨by simpa using hw.log _, counts_log hq⟩
  | true =>
    rw [if_pos rfl, if_pos rfl]
    cases t.value.copyRefusal? with
    | some refusal =>
      refine ⟨(hw.log _).log _, ?_⟩
      exact ((calm_log hq).trans (calm_log (quiet_unwinding _))).evolves
    | none =>
      refine (shareNext_ends (hw.log t.events) hl (hv rfl)).mono ?_
        fun f w' h => fails_of_violation w w' M h.1 ⟨rfl, h.2⟩
      rintro - w' ⟨hw', hcounts⟩
      exact ⟨hw', (counts_log hq).trans hcounts⟩

/-- A value was transferred out of a slot; the handle it stores is in hand once the rest is in its place. -/
structure Extracted (w : World) (M : Multiset Handle) (s : SlotId) (v : Value) (t : Transfer) (u : World) : Prop where
  value : t.value = v
  counts : w.Counts u
  sound : (u.setStorage s t.source).Sound ((v.next?.toList : Multiset Handle) + M)
  linked : t.source.next?.isSome = v.next?.isSome

section

variable (hw : w.Sound M) (ho : (w.controlOf s).state = .occupied) (hv : w.storageOf s = some v)

include hw ho hv

private theorem extracted_of_copy {t : Transfer} (hq : Quiet t.events) (ht : t.value = v) (hs : t.source = v)
    (hshared : ∀ g, v.next? = some g → g.family = .shared) :
    Ends (transfer t true) w (fun _ u => Extracted w M s v t u) (fun f w' => w.Fails M (TooMany w) f w') := by
  obtain ⟨-, hl, hp⟩ := hw.balanced.value_of_storage ho hv
  refine (transfer_ends hw hl hq ht true fun _ => hshared).mono ?_ fun _ _ h => h
  rintro - u ⟨hu, hcounts⟩
  rw [if_pos rfl] at hu
  refine ⟨ht, hcounts, ?_, by rw [hs]⟩
  rw [hs]
  exact hu.setValue rfl (hcounts.calm.state s ▸ ho) ((hcounts.storage s).trans hv) rfl hp

theorem copyValue_ends (hc : v.type.copyable) :
    Ends (copyValue v) w (fun t u => Extracted w M s v t u) (fun f w' => w.Fails M (TooMany w) f w') := by
  obtain ⟨-, -, hp⟩ := hw.balanced.value_of_storage ho hv
  unfold copyValue
  rw [ends_bind]
  exact extracted_of_copy hw ho hv (quiet_copyTransfer v) rfl rfl fun g hg => hp.shared (.inl hc) hg

theorem moveValue_ends :
    Ends (moveValue v) w (fun t u => Extracted w M s v t u) (fun f w' => w.Fails M (TooMany w) f w') := by
  obtain ⟨-, hl, hp⟩ := hw.balanced.value_of_storage ho hv
  unfold moveValue
  rw [ends_bind]
  cases hm : v.movesByCopy with
  | true =>
    exact extracted_of_copy hw ho hv (quiet_moveTransfer v) (value_moveTransfer v) (Value.source_of_movesByCopy hm)
      fun g hg => hp.shared (.inr hm) hg
  | false =>
    -- the handle leaves the slot, and an empty one stays there
    obtain ⟨ht, -, hn⟩ := Value.source_moveTransfer hm
    refine (transfer_ends hw hl (quiet_moveTransfer v) (value_moveTransfer v) false (by simp)).mono ?_ fun _ _ h => h
    rintro - u ⟨hu, hcounts⟩
    rw [if_neg (by simp), zero_add] at hu
    have hu' : u.Sound ((v.moveTransfer.source.next?.toList : Multiset Handle) + M) := by
      rw [hn]
      cases v.next? with
      | none => simpa using hu
      | some g => simpa using (Sound.cons_iff_of_empty rfl (Handle.refersIn_cleared u g)).mpr hu
    refine ⟨value_moveTransfer v, hcounts, ?_, by rw [hn, Option.isSome_map]⟩
    refine hu'.setValue ?_ (hcounts.calm.state s ▸ ho) ((hcounts.storage s).trans hv) ht (hp.source hm)
    rw [add_right_comm, add_comm (Multiset.ofList v.next?.toList), add_right_comm, add_right_comm]

end

/-! ### Taking -/

/-- The type of a value is the one its handle is of, up to qualifiers. -/
theorem StoredType.ofTy?_of_identity {t : StoredType} (h : t.ty = elem.identity) : StoredType.ofTy? elem = some t := by
  unfold ofTy?
  rw [← h]
  cases t with
  | single k => rfl
  | collection item n => cases item <;> rfl

theorem Ty.movable_of_isTakeable {t : StoredType} (ht : elem.isTakeable) (h : t.ty = elem.identity) : t.movable := by
  simp only [Ty.isTakeable, Run.takeable, Bool.and_eq_true] at ht
  have hmovable := ht.1.2
  rwa [StoredType.ofTy?_of_identity h] at hmovable

theorem Ty.copyable_of_isTakeable {t : StoredType} (ht : elem.isTakeable) (h : t.ty = elem.identity)
    (hc : elem.quals.isConst = true) : t.copyable := by
  simp only [Ty.isTakeable, Bool.and_eq_true] at ht
  have hcopyable := ht.2
  rw [StoredType.ofTy?_of_identity h] at hcopyable
  simpa [hc] using hcopyable

/-- Another value in a slot leaves the handles alone that are not stored in it. -/
theorem live?_setStorage_of_ne (hp : p ≠ .inside s) (u : Value) : (w.setStorage s u).live? p = w.live? p := by
  refine live?_congr rfl rfl ?_
  rintro t rfl
  have hts : t ≠ s := fun e => hp (e ▸ rfl)
  exact ⟨congrArg _ (controlOf_setStorage ..), storageOf_setStorage_of_ne _ _ hts⟩

theorem live?_setStorage {u : Value} (ho : (w.controlOf s).state = .occupied) (hv : w.storageOf s = some v)
    (hn : u.next?.isSome = v.next?.isSome) (hl : w.live? p = some h) : ∃ g, (w.setStorage s u).live? p = some g := by
  by_cases hp : p = .inside s
  · subst hp
    obtain ⟨-, v', hv', hg⟩ := nestedIn_eq_some_iff.mp hl
    obtain rfl : v' = v := Option.some_inj.mp (hv'.symm.trans hv)
    rw [hg] at hn
    obtain ⟨g, hg'⟩ := Option.isSome_iff_exists.mp hn
    refine ⟨g, nestedIn_eq_some_iff.mpr ⟨?_, u, ?_, hg'⟩⟩
    · rwa [controlOf_setStorage]
    · exact storageOf_setStorage_self u (find?_isSome_of_occupied ho)
  · exact ⟨h, (live?_setStorage_of_ne hp u).trans hl⟩

/-- The rest of a value that was transferred out is torn down with its slot. -/
theorem takeRest_ends {a : Act Transfer}
    (ha : Ends a w (fun t u => Extracted w M s v t u) (fun f w' => w.Fails M (TooMany w) f w'))
    (hw : w.Sound M) (ho : (w.controlOf s).state = .occupied) (hv : w.storageOf s = some v)
    (hl : w.live? p = some h) :
    Ends (do
        let t ← a
        writeObject (.slot s) t.source
        resetHandle p
        return t.value) w
      (fun x w' => x.IsProper ∧ w'.Sound ((x.next?.toList : Multiset Handle) + M) ∧ w.Evolves w' ∧
        ∀ name, w.values.find? name = none → w'.values.find? name = none)
      (fun f w' => w.Fails M (TooMany w) f w') := by
  rw [ends_bind]
  refine ha.mono ?_ fun _ _ h => h
  intro t u hx
  have hlu : u.live? p = some h := (hx.counts.live? p).trans hl
  obtain ⟨g, hg⟩ := live?_setStorage (hx.counts.calm.state s ▸ ho) ((hx.counts.storage s).trans hv) hx.linked hlu
  obtain ⟨w', hrun, hw', hev, -, hvalues⟩ := resetHandle_ok hx.sound hg
  rw [ends_bind, ends_of_ok (writeObject_apply ..), ends_bind]
  have hp := (hw.balanced.value_of_storage ho hv).2.2
  refine (ends_of_ok hrun).mpr ⟨hx.value ▸ hp, hx.value ▸ hw', ?_, ?_⟩
  · exact (hx.counts.calm.trans (calm_setStorage u s _)).trans_evolves hev
  · intro name hname
    exact hvalues name (by rwa [← hx.counts.values] at hname)

/-- The violation is to blame on taking a value through the handle. -/
def World.MistakesTaking (w : World) (h : Handle) : Violation → Prop
  | .takingEmpty => h.slot = none
  | .takingSlice => ∃ s t, h.slot = some s ∧ w.typeIn s = some t ∧ t.ty ≠ h.elem.identity
  | .countOverflow => w.Overfull
  | _ => False

/-- A value is taken out, or taking it was refused. -/
theorem takeValue_ends (hw : w.Sound M) (hl : w.live? p = some h) (ht : h.elem.isTakeable) :
    Ends (takeValue p) w
      (fun v w' => v.IsProper ∧ w'.Sound ((v.next?.toList : Multiset Handle) + M) ∧ w.Evolves w' ∧
        ∀ name, w.values.find? name = none → w'.values.find? name = none)
      (fun f w' => w.Fails M (w.MistakesTaking h) f w') := by
  have htakeable := ht
  simp only [Ty.isTakeable, Run.takeable, Bool.and_eq_true, Bool.not_eq_true'] at ht
  obtain ⟨⟨⟨hview, hblock⟩, -⟩, -⟩ := ht
  unfold takeValue
  rw [ends_bind, ends_of_ok (readHandle_apply hl)]
  cases hs : h.slot with
  | none => exact ends_violate.mpr hs
  | some s =>
    obtain ⟨t, htype, hd⟩ := (Handle.refersIn_of_slot_eq_some hs).mp (hw.refersIn_of_live hl)
    dsimp only
    rw [ends_bind, ends_of_ok (controlNow_apply ..), ControlBlock.holds_of_heldType htype]
    by_cases hidentity : t.ty = h.elem.identity
    · obtain ⟨k, -, href⟩ := (Referent.denotes_object_iff hview hblock).mp hd
      have haddr : h.ref.address = some ⟨.slot s, k⟩ := by
        rw [href]
        rfl
      obtain ⟨v, ⟨-, ho, hv⟩, rfl⟩ := hw.leadsTo htype haddr
      rw [decide_eq_true hidentity, if_neg (by simp), ends_bind, ends_of_ok (elementOf_apply haddr hv), haddr]
      have hblame : ∀ f w', w.Fails M (TooMany w) f w' → w.Fails M (w.MistakesTaking h) f w' := by
        intro f w' hf
        refine hf.mono ?_
        rintro _ ⟨rfl, hfull⟩
        exact hfull
      cases hc : h.elem.quals.isConst with
      | true =>
        rw [if_pos rfl]
        exact (takeRest_ends (copyValue_ends hw ho hv (Ty.copyable_of_isTakeable htakeable hidentity hc)) hw ho hv hl).mono
          (fun _ _ h => h) hblame
      | false =>
        rw [if_neg (by simp)]
        exact (takeRest_ends (moveValue_ends hw ho hv) hw ho hv hl).mono (fun _ _ h => h) hblame
    · rw [decide_eq_false hidentity]
      exact ends_violate.mpr ⟨s, t, hs, htype, hidentity⟩

end SlotHandles
