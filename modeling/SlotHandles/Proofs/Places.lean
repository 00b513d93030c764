import SlotHandles.Proofs.Balance
import SlotHandles.Proofs.Updates

/-!
# Places of handles

A handle that is alive is read at its place without a trace, is replaced by the one that is put there, and stays when
another place gets a new handle.
-/

namespace SlotHandles.World

variable {w w' : World} {p q : Holder} {h old : Handle} {s : SlotId}

theorem handle?_of_live? (hl : w.live? p = some h) : w.handle? p = some h := by
  cases p with
  | inside s =>
    obtain ⟨-, v, hv, hn⟩ := nestedIn_eq_some_iff.mp hl
    unfold handle?
    dsimp only
    rw [hv]
    exact hn
  | named _ | result _ | within _ => exact hl

theorem readHandle_apply (hl : w.live? p = some h) : readHandle p w = .ok h w := by
  have hh := handle?_of_live? hl
  cases p with
  | inside s =>
    have ho := (nestedIn_eq_some_iff.mp hl).1
    unfold readHandle
    rw [bind_of_ok (rfl : (get : Act World) w = .ok w w)]
    dsimp only
    rw [if_neg (by simp [ho]), hh]
    rfl
  | named _ | result _ | within _ =>
    unfold readHandle
    rw [bind_of_ok (rfl : (get : Act World) w = .ok w w)]
    dsimp only
    rw [hh]
    rfl

theorem live?_own (hown : p.isOwn) (w : World) : w.live? p = w.held.find? p := by
  cases p with
  | named n | result n => rfl
  | inside s | within n => cases hown

/-- A place of the program's own is written whether it held a handle or not. -/
theorem setHandle_own (hown : p.isOwn) (w : World) (h : Handle) :
    w.setHandle p h = { w with held := w.held.put p h } := by
  cases p with
  | named n | result n => rfl
  | inside s | within n => cases hown

theorem live?_congr (hh : w'.held = w.held) (hv : w'.values = w.values)
    (hs : ∀ s, p = .inside s → (w'.controlOf s).state = (w.controlOf s).state ∧ w'.storageOf s = w.storageOf s) :
    w'.live? p = w.live? p := by
  cases p with
  | named n | result n =>
    unfold live? handle?
    dsimp only
    rw [hh]
  | within n =>
    unfold live? handle?
    dsimp only
    rw [hv]
  | inside s =>
    obtain ⟨h1, h2⟩ := hs s rfl
    unfold live? nestedIn
    dsimp only
    rw [h1, h2]

theorem setHandle_inside {v : Value} (hv : w.storageOf s = some v) (h : Handle) :
    w.setHandle (.inside s) h = w.setStorage s (v.withNext h) := by
  unfold setHandle
  dsimp only
  rw [hv]

theorem setHandle_within {name : String} {v : Value} (hv : w.values.find? name = some v) (h : Handle) :
    w.setHandle (.within name) h = { w with values := w.values.put name (v.withNext h) } := by
  unfold setHandle
  dsimp only
  rw [hv]

theorem storageOf_isSome (hs : (w.storageOf s).isSome) : (w.slots.find? s).isSome := by
  unfold storageOf at hs
  cases hf : w.slots.find? s with
  | none => simp [hf] at hs
  | some _ => rfl

/-- A handle that is put at a place changes a stored value by the handle it stores at most. -/
theorem storageOf_setHandle {v : Value} (hv : w.storageOf s = some v) (p : Holder) (g : Handle) :
    (w.setHandle p g).storageOf s = some v ∨ (w.setHandle p g).storageOf s = some (v.withNext g) := by
  cases p with
  | named n | result n => exact .inl hv
  | within n =>
    left
    unfold setHandle
    dsimp only
    split <;> exact hv
  | inside t =>
    by_cases hts : t = s
    · subst hts
      right
      rw [setHandle_inside hv]
      exact storageOf_setStorage_self _ (storageOf_isSome (by rw [hv]; rfl))
    · left
      unfold setHandle
      dsimp only
      split
      · exact (storageOf_setStorage_of_ne _ _ (Ne.symm hts)).trans hv
      · exact hv

theorem distinct_setHandle (hs : w.slots.Distinct) (hh : w.held.Distinct) (hv : w.values.Distinct) (p : Holder)
    (g : Handle) : (w.setHandle p g).slots.Distinct ∧ (w.setHandle p g).held.Distinct ∧
      (w.setHandle p g).values.Distinct := by
  cases p with
  | named n | result n => exact ⟨hs, hh.put _, hv⟩
  | inside t =>
    unfold setHandle
    dsimp only
    split
    · exact ⟨distinct_setStorage hs t _, hh, hv⟩
    · exact ⟨hs, hh, hv⟩
  | within n =>
    unfold setHandle
    dsimp only
    split
    · exact ⟨hs, hh, hv.put _⟩
    · exact ⟨hs, hh, hv⟩

theorem live?_setHandle_self (hl : w.live? p = some old) (h : Handle) : (w.setHandle p h).live? p = some h := by
  cases p with
  | named n | result n => exact Table.find?_put_self ..
  | inside s =>
    obtain ⟨ho, v, hv, hn⟩ := nestedIn_eq_some_iff.mp hl
    rw [setHandle_inside hv]
    refine nestedIn_eq_some_iff.mpr ⟨?_, v.withNext h, ?_, Value.next?_withNext hn⟩
    · rwa [controlOf_setStorage]
    · exact storageOf_setStorage_self _ (find?_isSome_of_occupied ho)
  | within n =>
    obtain ⟨v, hv, hn⟩ := Option.bind_eq_some_iff.mp hl
    rw [setHandle_within hv]
    unfold live? handle?
    dsimp only
    rw [Table.find?_put_self]
    exact Value.next?_withNext hn

theorem live?_setHandle_own (hp : p.isOwn) (w : World) (g : Handle) : (w.setHandle p g).live? p = some g := by
  rw [live?_own hp, setHandle_own hp]
  exact Table.find?_put_self ..

theorem live?_setHandle_of_ne (hne : q ≠ p) (h : Handle) : (w.setHandle p h).live? q = w.live? q := by
  cases p with
  | named n | result n =>
    cases q with
    | named _ | result _ => exact Table.find?_put_of_ne _ _ hne
    | inside _ | within _ => rfl
  | inside s =>
    cases hv : w.storageOf s with
    | none =>
      have e : w.setHandle (.inside s) h = w := by
        unfold setHandle
        dsimp only
        rw [hv]
      rw [e]
    | some v =>
      rw [setHandle_inside hv]
      refine live?_congr rfl rfl ?_
      rintro t rfl
      have hts : t ≠ s := fun e => hne (e ▸ rfl)
      exact ⟨congrArg _ (controlOf_setStorage ..), storageOf_setStorage_of_ne _ _ hts⟩
  | within n =>
    cases hv : w.values.find? n with
    | none =>
      have e : w.setHandle (.within n) h = w := by
        unfold setHandle
        dsimp only
        rw [hv]
      rw [e]
    | some v =>
      rw [setHandle_within hv]
      cases q with
      | named _ | result _ | inside _ => rfl
      | within m =>
        have hmn : m ≠ n := fun e => hne (e ▸ rfl)
        unfold live? handle?
        dsimp only
        rw [Table.find?_put_of_ne _ _ hmn]

theorem setHandle_setHandle (w : World) (p : Holder) (a b : Handle) :
    (w.setHandle p a).setHandle p b = w.setHandle p b := by
  cases p with
  | named n | result n =>
    unfold setHandle
    dsimp only
    rw [Table.put_put]
  | inside s =>
    cases hv : w.storageOf s with
    | none => simp [setHandle, hv]
    | some v =>
      have hx := storageOf_isSome (by rw [hv]; rfl : (w.storageOf s).isSome)
      rw [setHandle_inside hv, setHandle_inside hv, setHandle_inside (storageOf_setStorage_self _ hx),
        setStorage_setStorage]
      cases v <;> rfl
  | within n =>
    cases hv : w.values.find? n with
    | none => simp [setHandle, hv]
    | some v =>
      rw [setHandle_within hv, setHandle_within hv, setHandle_within (Table.find?_put_self ..)]
      dsimp only
      rw [Table.put_put]
      cases v <;> rfl

/-- To put a handle where it stands changes nothing. -/
theorem setHandle_of_live? (hd : w.slots.Distinct) (hl : w.live? p = some h) : w.setHandle p h = w := by
  have hsame : ∀ v : Value, v.next? = some h → v.withNext h = v := by
    intro v hn
    cases v <;> simp_all [Value.next?, Value.withNext]
  cases p with
  | named n | result n =>
    unfold setHandle
    dsimp only
    rw [Table.put_of_find?_eq_some hl]
  | inside s =>
    obtain ⟨-, v, hv, hn⟩ := nestedIn_eq_some_iff.mp hl
    rw [setHandle_inside hv, hsame v hn, setStorage_storageOf hd hv]
  | within n =>
    obtain ⟨v, hv, hn⟩ := Option.bind_eq_some_iff.mp hl
    rw [setHandle_within hv, hsame v hn, Table.put_of_find?_eq_some hv]

/-- Handles at two places may be exchanged for others in either order. -/
theorem setHandle_comm {g : Handle} (hp : w.live? p = some old) (hq : w.live? q = some g) (hne : p ≠ q) (a b : Handle) :
    (w.setHandle p a).setHandle q b = (w.setHandle q b).setHandle p a := by
  -- two places of one kind are two keys of one table; places of different kinds never meet
  have held : ∀ p' q' : Holder, w.held.find? p' = some old → w.held.find? q' = some g → p' ≠ q' →
      ({ w with held := (w.held.put p' a).put q' b } : World) = { w with held := (w.held.put q' b).put p' a } := by
    intro p' q' hp' hq' hne'
    rw [Table.put_comm (by rw [hp']; rfl) (by rw [hq']; rfl) hne']
  cases p with
  | named n | result n =>
    cases q with
    | named m | result m => exact held _ _ hp hq hne
    | inside s =>
      obtain ⟨-, v, hv, -⟩ := nestedIn_eq_some_iff.mp hq
      rw [setHandle_inside hv]
      exact setHandle_inside (w := { w with held := w.held.put _ a }) hv b
    | within m =>
      obtain ⟨v, hv, -⟩ := Option.bind_eq_some_iff.mp hq
      rw [setHandle_within hv]
      exact setHandle_within (w := { w with held := w.held.put _ a }) hv b
  | inside s =>
    obtain ⟨-, v, hv, -⟩ := nestedIn_eq_some_iff.mp hp
    rw [setHandle_inside hv]
    cases q with
    | named m | result m => exact (setHandle_inside (w := { w with held := w.held.put _ b }) hv a).symm
    | inside t =>
      obtain ⟨-, u, hu, -⟩ := nestedIn_eq_some_iff.mp hq
      have hst : s ≠ t := fun e => hne (e ▸ rfl)
      have hu' : (w.setStorage s (v.withNext a)).storageOf t = some u :=
        (storageOf_setStorage_of_ne _ _ (Ne.symm hst)).trans hu
      have hv' : (w.setStorage t (u.withNext b)).storageOf s = some v := (storageOf_setStorage_of_ne _ _ hst).trans hv
      rw [setHandle_inside hu', setHandle_inside hu, setHandle_inside hv', setStorage_comm w hst]
    | within m =>
      obtain ⟨u, hu, -⟩ := Option.bind_eq_some_iff.mp hq
      rw [setHandle_within hu]
      have e := setHandle_within (w := w.setStorage s (v.withNext a)) hu b
      rw [e]
      exact (setHandle_inside (w := { w with values := w.values.put m (u.withNext b) }) hv a).symm
  | within n =>
    obtain ⟨v, hv, hn⟩ := Option.bind_eq_some_iff.mp hp
    rw [setHandle_within hv]
    cases q with
    | named m | result m => exact (setHandle_within (w := { w with held := w.held.put _ b }) hv a).symm
    | inside t =>
      obtain ⟨-, u, hu, -⟩ := nestedIn_eq_some_iff.mp hq
      rw [setHandle_inside hu]
      have e := setHandle_inside (w := { w with values := w.values.put n (v.withNext a) }) hu b
      rw [e]
      exact (setHandle_within (w := w.setStorage t (u.withNext b)) hv a).symm
    | within m =>
      obtain ⟨u, hu, -⟩ := Option.bind_eq_some_iff.mp hq
      have hnm : n ≠ m := fun e => hne (e ▸ rfl)
      have hu' : (w.values.put n (v.withNext a)).find? m = some u :=
        (Table.find?_put_of_ne _ _ (Ne.symm hnm)).trans hu
      have hv' : (w.values.put m (u.withNext b)).find? n = some v := (Table.find?_put_of_ne _ _ hnm).trans hv
      have e := setHandle_within (w := { w with values := w.values.put n (v.withNext a) }) hu' b
      have e' := setHandle_within (w := { w with values := w.values.put m (u.withNext b) }) hv' a
      rw [e, setHandle_within hu, e']
      dsimp only
      rw [Table.put_comm (by rw [hv]; rfl) (by rw [hu]; rfl) hnm]

end SlotHandles.World
