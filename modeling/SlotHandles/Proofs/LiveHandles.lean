import SlotHandles.Proofs.Entries
import SlotHandles.Proofs.Program
import Mathlib.Algebra.Order.Group.Multiset
import Mathlib.Data.Multiset.Count

/-!
# Live handles

The handles that are alive in a world: those the program holds, under a name, in the bag or in a value that was taken
out (`World.roots`), and those stored in the live value of a slot (`World.nested`).  `owners` counts the handles of a
family that own the value in a slot.

An update of one slot or of one place changes these multisets by one handle only.
-/

namespace SlotHandles

/-- The handle stored in the value of a slot, while it is alive. -/
def Slot.nested? (slot : Slot) : Option Handle :=
  if slot.control.state = .occupied then slot.storage.bind Value.next? else none

namespace World

/-- The handles that the program holds, those in values that were taken out included. -/
def roots (w : World) : Multiset Handle :=
  (w.held.map Prod.snd : List Handle) + (w.bag : Multiset Handle) +
    (w.values.filterMap fun e => e.2.next? : List Handle)

/-- The handles that live values in slots store. -/
def nested (w : World) : Multiset Handle := (w.slots.filterMap fun e => e.2.nested? : List Handle)

def handles (w : World) : Multiset Handle := w.roots + w.nested

end World

/-- The number of handles of a family that own the value in a slot. -/
def owners (hs : Multiset Handle) (family : Family) (s : SlotId) : Nat :=
  hs.countP fun h => h.family = family ∧ h.slot = some s

@[simp] theorem owners_add (hs hs' : Multiset Handle) (family : Family) (s : SlotId) :
    owners (hs + hs') family s = owners hs family s + owners hs' family s := Multiset.countP_add ..

@[simp] theorem owners_cons (h : Handle) (hs : Multiset Handle) (family : Family) (s : SlotId) :
    owners (h ::ₘ hs) family s = owners hs family s + if h.family = family ∧ h.slot = some s then 1 else 0 :=
  Multiset.countP_cons ..

theorem owners_cons_of_ne {h : Handle} {s t : SlotId} (hs : h.slot = some s) (hts : t ≠ s) (hs' : Multiset Handle)
    (family : Family) : owners (h ::ₘ hs') family t = owners hs' family t := by
  have hne : h.slot ≠ some t := fun e => hts (Option.some_inj.mp (e.symm.trans hs))
  rw [owners_cons, if_neg fun e => hne e.2, Nat.add_zero]

theorem owners_pos_iff {hs : Multiset Handle} {family : Family} {s : SlotId} :
    0 < owners hs family s ↔ ∃ h ∈ hs, h.family = family ∧ h.slot = some s := Multiset.countP_pos

theorem owners_cons_congr {h g : Handle} (hf : g.family = h.family) (hs : g.slot = h.slot) (hs' : Multiset Handle)
    (family : Family) (s : SlotId) : owners (g ::ₘ hs') family s = owners (h ::ₘ hs') family s := by
  rw [owners_cons, owners_cons, hf, hs]

/-- What is collected over a table, split at one entry. -/
private theorem coe_filterMap_of_perm {α β : Type} {t r : Table α β} {e : α × β} (hp : t.Perm (e :: r))
    (g : α × β → Option Handle) :
    ((t.filterMap g : List Handle) : Multiset Handle) = (g e).toList + (r.filterMap g : List Handle) := by
  have h : (t.filterMap g).Perm ((g e).toList ++ r.filterMap g) := by
    refine (hp.filterMap g).trans ?_
    cases hg : g e <;> simp [hg]
  rw [Multiset.coe_add]
  exact Multiset.coe_eq_coe.mpr h

namespace World

variable {w : World} {s t : SlotId} {c : ControlBlock} {v : Value} {h old : Handle} {p : Holder}

/-! ### Handles in slots -/

theorem nestedIn_eq (w : World) (s : SlotId) : w.nestedIn s = (w.slots.find? s).bind Slot.nested? := by
  unfold nestedIn controlOf storageOf
  cases w.slots.find? s with
  | none => simp [ControlBlock.fresh]
  | some slot => rfl

theorem nestedIn_of_occupied (h : (w.controlOf s).state = .occupied) :
    w.nestedIn s = (w.storageOf s).bind Value.next? := by
  unfold nestedIn
  rw [if_pos h]

theorem nestedIn_of_not_occupied (h : (w.controlOf s).state ≠ .occupied) : w.nestedIn s = none := by
  unfold nestedIn
  rw [if_neg h]

theorem nestedIn_eq_some_iff :
    w.nestedIn s = some h ↔ (w.controlOf s).state = .occupied ∧ ∃ v, w.storageOf s = some v ∧ v.next? = some h := by
  unfold nestedIn
  split
  · next ho => simp [ho, Option.bind_eq_some_iff]
  · next ho => simp [ho]

theorem mem_nested (hd : w.slots.Distinct) : h ∈ w.nested ↔ ∃ s, w.nestedIn s = some h := by
  unfold nested
  rw [Multiset.mem_coe, List.mem_filterMap]
  constructor
  · rintro ⟨e, he, hn⟩
    refine ⟨e.1, ?_⟩
    rw [nestedIn_eq, (Table.find?_eq_some_iff_mem hd).mpr he]
    exact hn
  · rintro ⟨s, hs⟩
    rw [nestedIn_eq, Option.bind_eq_some_iff] at hs
    obtain ⟨slot, hf, hn⟩ := hs
    exact ⟨(s, slot), Table.mem_of_find?_eq_some hf, hn⟩

/-- A change of one slot exchanges the handle of its live value. -/
private theorem nested_adjust (hd : w.slots.Distinct) (s : SlotId) (f : Slot → Slot) :
    ({ w with slots := w.slots.adjust s f } : World).nested + ((w.nestedIn s).toList : Multiset Handle) =
      w.nested + (({ w with slots := w.slots.adjust s f } : World).nestedIn s).toList := by
  rw [nestedIn_eq, nestedIn_eq]
  unfold nested
  dsimp only
  rw [Table.find?_adjust_self]
  cases hf : w.slots.find? s with
  | none => rw [Table.adjust_of_find?_eq_none f hf]; rfl
  | some slot =>
    rw [coe_filterMap_of_perm (Table.adjust_perm hd f hf), coe_filterMap_of_perm (Table.perm_remove hd hf)]
    dsimp only [Option.map_some, Option.bind_some]
    rw [add_comm, add_comm (Multiset.ofList (f slot).nested?.toList), add_assoc]

theorem distinct_setControl (hd : w.slots.Distinct) (s : SlotId) (c : ControlBlock) :
    (w.setControl s c).slots.Distinct := by
  unfold setControl
  dsimp only
  exact hd.adjust _

theorem distinct_setStorage (hd : w.slots.Distinct) (s : SlotId) (v : Value) :
    (w.setStorage s v).slots.Distinct := by
  unfold setStorage
  dsimp only
  exact hd.adjust _

theorem nested_setControl (hd : w.slots.Distinct) (s : SlotId) (c : ControlBlock) :
    (w.setControl s c).nested + ((w.nestedIn s).toList : Multiset Handle) =
      w.nested + ((w.setControl s c).nestedIn s).toList := nested_adjust hd s _

theorem nested_setStorage (hd : w.slots.Distinct) (s : SlotId) (v : Value) :
    (w.setStorage s v).nested + ((w.nestedIn s).toList : Multiset Handle) =
      w.nested + ((w.setStorage s v).nestedIn s).toList := nested_adjust hd s _

theorem find?_isSome_of_state (h : (w.controlOf s).state ≠ .empty) : (w.slots.find? s).isSome := by
  unfold controlOf at h
  cases hf : w.slots.find? s with
  | none => rw [hf] at h; exact absurd rfl h
  | some _ => rfl

theorem find?_isSome_of_occupied (h : (w.controlOf s).state = .occupied) : (w.slots.find? s).isSome :=
  find?_isSome_of_state (by rw [h]; decide)

theorem find?_isSome_of_count (h : (w.controlOf s).count ≠ 0) : (w.slots.find? s).isSome := by
  unfold controlOf at h
  cases hf : w.slots.find? s with
  | none =>
    rw [hf] at h
    exact absurd rfl h
  | some _ => rfl

/-- A slot does not become occupied by a control block that is not. -/
theorem state_setControl_ne_occupied (w : World) (s : SlotId) (hc : c.state ≠ .occupied) :
    ((w.setControl s c).controlOf s).state ≠ .occupied := by
  unfold controlOf
  rw [find?_setControl, if_pos rfl]
  cases w.slots.find? s with
  | none => simp [ControlBlock.fresh]
  | some _ => exact hc

private theorem nested_setControl_of_nestedIn (hd : w.slots.Distinct)
    (h : (w.setControl s c).nestedIn s = w.nestedIn s) : (w.setControl s c).nested = w.nested := by
  have e := nested_setControl hd s c
  rw [h] at e
  exact add_right_cancel e

theorem nested_setControl_idle (hd : w.slots.Distinct) (hw : (w.controlOf s).state ≠ .occupied)
    (hc : c.state ≠ .occupied) : (w.setControl s c).nested = w.nested := by
  apply nested_setControl_of_nestedIn hd
  rw [nestedIn_of_not_occupied hw, nestedIn_of_not_occupied (state_setControl_ne_occupied w s hc)]

theorem nested_setControl_of_state (hd : w.slots.Distinct) (hc : c.state = (w.controlOf s).state) :
    (w.setControl s c).nested = w.nested := by
  apply nested_setControl_of_nestedIn hd
  by_cases ho : (w.controlOf s).state = .occupied
  · unfold nestedIn
    rw [controlOf_setControl_self c (find?_isSome_of_occupied ho), hc, storageOf_setControl]
  · rw [nestedIn_of_not_occupied ho, nestedIn_of_not_occupied (state_setControl_ne_occupied w s (by rwa [hc]))]

theorem nested_setStorage_idle (hd : w.slots.Distinct) (hw : (w.controlOf s).state ≠ .occupied) (v : Value) :
    (w.setStorage s v).nested = w.nested := by
  have e := nested_setStorage hd s v
  rw [nestedIn_of_not_occupied hw, nestedIn_of_not_occupied (by rwa [controlOf_setStorage])] at e
  exact add_right_cancel e

/-- A value that is alive no longer sets the handle free that it stores. -/
theorem nested_strike (hd : w.slots.Distinct) (ho : (w.controlOf s).state = .occupied) (hv : w.storageOf s = some v)
    (hc : c.state ≠ .occupied) : (v.next?.toList : Multiset Handle) + (w.setControl s c).nested = w.nested := by
  have e := nested_setControl hd s c
  rw [nestedIn_of_occupied ho, hv, Option.bind_some,
    nestedIn_of_not_occupied (state_setControl_ne_occupied w s hc)] at e
  rw [add_comm, e]
  simp

/-! ### Handles of the program -/

theorem roots_setHandle (hh : w.held.Distinct) (hv : w.values.Distinct) (hp : ∀ s, p ≠ .inside s)
    (hl : w.live? p = some old) (h : Handle) : old ::ₘ (w.setHandle p h).roots = h ::ₘ w.roots := by
  have own : ∀ q : Holder, w.held.find? q = some old →
      old ::ₘ ({ w with held := w.held.put q h } : World).roots = h ::ₘ w.roots := by
    intro q hq
    have e1 := Multiset.coe_eq_coe.mpr ((Table.put_perm hh q h).map Prod.snd)
    have e2 := Multiset.coe_eq_coe.mpr ((Table.perm_remove hh hq).map Prod.snd)
    unfold roots
    dsimp only
    rw [e1, e2, List.map_cons, List.map_cons, ← Multiset.cons_coe, ← Multiset.cons_coe]
    simp only [Multiset.cons_add]
    exact Multiset.cons_swap ..
  cases p with
  | named n => exact own (.named n) hl
  | result n => exact own (.result n) hl
  | inside s => exact absurd rfl (hp s)
  | within n =>
    unfold live? handle? at hl
    rw [Option.bind_eq_some_iff] at hl
    obtain ⟨v, hf, hn⟩ := hl
    have hn' : (v.withNext h).next? = some h := by cases v <;> simp_all [Value.next?, Value.withNext]
    unfold setHandle
    dsimp only
    rw [hf]
    unfold roots
    dsimp only
    rw [coe_filterMap_of_perm (Table.put_perm hv n (v.withNext h)), coe_filterMap_of_perm (Table.perm_remove hv hf),
      hn, hn']
    simp only [Option.toList_some, Multiset.coe_singleton, Multiset.singleton_add, Multiset.add_cons]
    exact Multiset.cons_swap ..

theorem roots_setHandle_of_vacant (hh : w.held.Distinct) (hp : w.Vacant p) (h : Handle) :
    (w.setHandle p h).roots = h ::ₘ w.roots := by
  have own : (w.setHandle p h).roots = ({ w with held := w.held.put p h } : World).roots := by
    cases p with
    | named _ | result _ => rfl
    | inside _ | within _ => simp [Vacant, Holder.isOwn] at hp
  have e := Multiset.coe_eq_coe.mpr ((Table.put_perm hh p h).map Prod.snd)
  rw [own]
  unfold roots
  dsimp only
  rw [e, Table.remove_of_find?_eq_none hp.2, List.map_cons, ← Multiset.cons_coe]
  simp only [Multiset.cons_add]

theorem roots_remove (hh : w.held.Distinct) (hp : w.held.find? p = some h) :
    h ::ₘ ({ w with held := w.held.remove p } : World).roots = w.roots := by
  have e := Multiset.coe_eq_coe.mpr ((Table.perm_remove hh hp).map Prod.snd)
  unfold roots
  dsimp only
  rw [e, List.map_cons, ← Multiset.cons_coe]
  simp only [Multiset.cons_add]

theorem roots_put_value (hv : w.values.Distinct) {name : String} (hf : w.values.find? name = none) (v : Value) :
    ({ w with values := w.values.put name v } : World).roots = w.roots + (v.next?.toList : Multiset Handle) := by
  unfold roots
  dsimp only
  rw [coe_filterMap_of_perm (Table.put_perm hv name v), Table.remove_of_find?_eq_none hf]
  dsimp only
  rw [add_comm (Multiset.ofList v.next?.toList), add_assoc, add_assoc, add_assoc]

theorem roots_remove_value (hv : w.values.Distinct) {name : String} (hf : w.values.find? name = some v) :
    w.roots = ({ w with values := w.values.remove name } : World).roots + (v.next?.toList : Multiset Handle) := by
  unfold roots
  dsimp only
  rw [coe_filterMap_of_perm (Table.perm_remove hv hf)]
  dsimp only
  rw [add_comm (Multiset.ofList v.next?.toList), add_assoc, add_assoc, add_assoc]

end World

end SlotHandles
