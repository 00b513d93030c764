import SlotHandles.Table
import Mathlib.Data.List.Nodup
import Mathlib.Data.List.Perm.Basic

/-!
# The entries of a table

A table whose keys are distinct is, up to order, the entry of a key followed by the entries of the other keys.
`Table.perm_remove`, `Table.adjust_perm` and `Table.put_perm` say so before and after a change of that entry, so that
whatever is counted over all entries changes by what the one entry contributes.
-/

namespace SlotHandles

namespace Table

variable {α β : Type} [DecidableEq α] {t : Table α β} {key : α} {v : β}

def Distinct (t : Table α β) : Prop := (t.map Prod.fst).Nodup

theorem find?_eq_none_iff : t.find? key = none ↔ key ∉ t.map Prod.fst := by
  induction t with
  | nil => simp [find?]
  | cons e rest ih =>
    unfold find?
    by_cases h : e.1 = key
    · simp [h]
    · rw [if_neg h, ih, List.map_cons, List.mem_cons, not_or]
      exact ⟨fun hr => ⟨fun he => h he.symm, hr⟩, fun hr => hr.2⟩

theorem mem_of_find?_eq_some (h : t.find? key = some v) : (key, v) ∈ t := by
  induction t with
  | nil => simp [find?] at h
  | cons e rest ih =>
    unfold find? at h
    split at h
    · next hk =>
      obtain rfl : e.2 = v := by simpa using h
      subst hk
      exact List.mem_cons_self
    · exact List.mem_cons_of_mem _ (ih h)

theorem find?_eq_some_iff_mem (hd : t.Distinct) : t.find? key = some v ↔ (key, v) ∈ t := by
  refine ⟨mem_of_find?_eq_some, ?_⟩
  intro h
  induction t with
  | nil => simp at h
  | cons e rest ih =>
    unfold Distinct at hd
    rw [List.map_cons, List.nodup_cons] at hd
    unfold find?
    rcases List.mem_cons.mp h with he | hr
    · subst he
      simp
    · have hk : e.1 ≠ key := by
        intro he
        exact hd.1 (List.mem_map.mpr ⟨(key, v), hr, he.symm⟩)
      rw [if_neg hk]
      exact ih hd.2 hr

theorem remove_of_find?_eq_none (h : t.find? key = none) : t.remove key = t := by
  rw [find?_eq_none_iff] at h
  unfold remove
  rw [List.filter_eq_self]
  intro e he
  have hk : e.1 ≠ key := fun hk => h (hk ▸ List.mem_map_of_mem he)
  simpa using hk

theorem adjust_of_find?_eq_none (f : β → β) (h : t.find? key = none) : t.adjust key f = t := by
  rw [find?_eq_none_iff] at h
  unfold adjust
  conv_rhs => rw [← List.map_id t]
  apply List.map_congr_left
  intro e he
  have hk : e.1 ≠ key := fun hk => h (hk ▸ List.mem_map_of_mem he)
  simp [hk]

theorem adjust_eq_self {f : β → β} (hd : t.Distinct) (h : ∀ v, t.find? key = some v → f v = v) :
    t.adjust key f = t := by
  unfold adjust
  conv_rhs => rw [← List.map_id t]
  apply List.map_congr_left
  intro e he
  by_cases hk : e.1 = key
  · have hf : t.find? key = some e.2 := (find?_eq_some_iff_mem hd).mpr (hk ▸ he)
    rw [if_pos hk, h _ hf]
    rfl
  · rw [if_neg hk]
    rfl

theorem map_fst_adjust (t : Table α β) (key : α) (f : β → β) :
    (t.adjust key f).map Prod.fst = t.map Prod.fst := by
  unfold adjust
  rw [List.map_map]
  apply List.map_congr_left
  intro e _
  dsimp only [Function.comp]
  split <;> rfl

theorem adjust_adjust_self (t : Table α β) (key : α) (f g : β → β) :
    (t.adjust key f).adjust key g = t.adjust key fun v => g (f v) := by
  unfold adjust
  rw [List.map_map]
  apply List.map_congr_left
  intro e _
  by_cases h : e.1 = key <;> simp [h]

/-- Two changes that commute wherever they meet may be made in either order. -/
theorem adjust_comm (t : Table α β) (key other : α) {f g : β → β} (h : key = other → ∀ v, g (f v) = f (g v)) :
    (t.adjust key f).adjust other g = (t.adjust other g).adjust key f := by
  unfold adjust
  rw [List.map_map, List.map_map]
  apply List.map_congr_left
  intro e _
  obtain ⟨k, v⟩ := e
  by_cases hk : k = key <;> by_cases ho : k = other
  · subst hk
    simp [ho, h ho]
  · simp [hk, show key ≠ other from hk ▸ ho]
  · simp [ho, show other ≠ key from ho ▸ hk]
  · simp [hk, ho]

theorem Distinct.adjust (hd : t.Distinct) (f : β → β) : (t.adjust key f).Distinct := by
  unfold Distinct
  rwa [map_fst_adjust]

theorem Distinct.remove (hd : t.Distinct) : (t.remove key).Distinct :=
  hd.sublist (List.filter_sublist.map Prod.fst)

omit [DecidableEq α] in
private theorem distinct_cons {e : α × β} {rest : Table α β} :
    Distinct (e :: rest) ↔ e.1 ∉ rest.map Prod.fst ∧ Distinct rest := by
  unfold Distinct
  rw [List.map_cons, List.nodup_cons]

private theorem remove_cons_self {e : α × β} {rest : Table α β} (hd : Distinct (e :: rest)) :
    remove (e :: rest) e.1 = rest := by
  have h : remove (e :: rest) e.1 = remove rest e.1 := by simp [remove]
  rw [h, remove_of_find?_eq_none (find?_eq_none_iff.mpr (distinct_cons.mp hd).1)]

private theorem remove_cons_of_ne {e : α × β} {rest : Table α β} (h : e.1 ≠ key) :
    remove (e :: rest) key = e :: remove rest key := by
  simp [remove, h]

theorem perm_remove (hd : t.Distinct) (h : t.find? key = some v) : t.Perm ((key, v) :: t.remove key) := by
  induction t with
  | nil => simp [find?] at h
  | cons e rest ih =>
    unfold find? at h
    split at h
    · next hk =>
      obtain rfl : e.2 = v := by simpa using h
      subst hk
      rw [remove_cons_self hd]
    · next hk =>
      rw [remove_cons_of_ne hk]
      exact ((ih (distinct_cons.mp hd).2 h).cons e).trans (List.Perm.swap _ _ _)

theorem adjust_perm (hd : t.Distinct) (f : β → β) (h : t.find? key = some v) :
    (t.adjust key f).Perm ((key, f v) :: t.remove key) := by
  have hm : (key, f v) ∈ t.adjust key f :=
    mem_of_find?_eq_some (by rw [find?_adjust_self, h, Option.map_some])
  have hr : (t.adjust key f).remove key = t.remove key := by
    unfold Table.remove Table.adjust
    rw [List.filter_map]
    have hc : ∀ e : α × β, ((fun e : α × β => decide (e.1 ≠ key)) ∘ fun e => if e.1 = key then (e.1, f e.2) else e) e =
        decide (e.1 ≠ key) := by
      intro e
      by_cases hk : e.1 = key <;> simp [hk]
    rw [funext hc]
    conv_rhs => rw [← List.map_id (t.filter _)]
    apply List.map_congr_left
    intro e he
    have hk : e.1 ≠ key := by simpa using (List.mem_filter.mp he).2
    simp [hk]
  have hp := perm_remove (hd.adjust f) ((find?_eq_some_iff_mem (hd.adjust f)).mpr hm)
  rwa [hr] at hp

theorem put_perm (hd : t.Distinct) (key : α) (v : β) : (t.put key v).Perm ((key, v) :: t.remove key) := by
  induction t with
  | nil => simp [put, remove]
  | cons e rest ih =>
    obtain ⟨hn, hd'⟩ := distinct_cons.mp hd
    unfold put
    split
    · next hk =>
      subst hk
      rw [remove_cons_self hd]
    · next hk =>
      rw [remove_cons_of_ne hk]
      exact ((ih hd').cons e).trans (List.Perm.swap _ _ _)

theorem put_put (t : Table α β) (key : α) (v u : β) : (t.put key v).put key u = t.put key u := by
  induction t with
  | nil => simp [put]
  | cons e rest ih =>
    by_cases hk : e.1 = key
    · simp [put, hk]
    · simp [put, hk, ih]

theorem put_of_find?_eq_some (h : t.find? key = some v) : t.put key v = t := by
  induction t with
  | nil => cases h
  | cons e rest ih =>
    obtain ⟨k, x⟩ := e
    unfold find? at h
    unfold put
    split at h
    · next hk =>
      cases h
      rw [if_pos hk]
    · next hk => rw [if_neg hk, ih h]

theorem put_comm {other : α} (hk : (t.find? key).isSome) (ho : (t.find? other).isSome) (hne : key ≠ other) (v u : β) :
    (t.put key v).put other u = (t.put other u).put key v := by
  induction t with
  | nil => simp [find?] at hk
  | cons e rest ih =>
    obtain ⟨k, x⟩ := e
    by_cases h1 : k = key
    · subst h1
      simp [put, hne]
    · by_cases h2 : k = other
      · subst h2
        simp [put, h1]
      · simp only [find?, if_neg h1] at hk
        simp only [find?, if_neg h2] at ho
        simp [put, h1, h2, ih hk ho]

theorem not_mem_remove (t : Table α β) (key : α) : key ∉ (t.remove key).map Prod.fst :=
  find?_eq_none_iff.mp (find?_remove_self t key)

theorem Distinct.put (hd : t.Distinct) (v : β) : (t.put key v).Distinct := by
  unfold Distinct
  rw [((put_perm hd key v).map Prod.fst).nodup_iff, List.map_cons, List.nodup_cons]
  exact ⟨not_mem_remove t key, hd.remove⟩

end Table

end SlotHandles
