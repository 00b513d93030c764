import SlotHandles.Proofs.Moves
import SlotHandles.Proofs.Tracking
import Mathlib.Data.Set.Defs

/-!
# Footprints

A footprint is a set of slots, of places of the program's own and of names of values.  An action is local to a
footprint if, from two worlds that look the same there, it ends in the same way, changes nothing outside of the
footprint, announces the same, and leaves two worlds that look the same on the footprint again (`Local`).  So whatever
else is in the world, it neither takes part in the action nor is touched by it.

An action can only be local if what it finds on the footprint leads nowhere else: `World.Closed` says so of the
handles that are stored there.
-/

namespace SlotHandles

open World

structure Footprint where
  slots : Set SlotId
  held : Set Holder
  values : Set String

variable {F : Footprint} {w w' u u' : World} {s : SlotId} {p : Holder} {h : Handle} {v : Value} {c : ControlBlock}
  {α β : Type}

/-- The place belongs to the footprint. -/
def Holder.In (F : Footprint) : Holder → Prop
  | .inside s => s ∈ F.slots
  | .within name => name ∈ F.values
  | p => p ∈ F.held

def Region.In (F : Footprint) : Region → Prop
  | .slot s => s ∈ F.slots
  | .named name => name ∈ F.values

/-- The handle leads to slots of the footprint only. -/
structure Handle.LeadsInto (F : Footprint) (h : Handle) : Prop where
  slot : ∀ s, h.slot = some s → s ∈ F.slots
  address : ∀ a, h.ref.address = some a → a.region.In F

/-- The value calls no control block, and the handle it stores leads to slots of the footprint only. -/
structure Value.LeadsInto (F : Footprint) (v : Value) : Prop where
  passive : v.isPassive = true
  next : ∀ h, v.next? = some h → h.LeadsInto F

namespace World

/-- The worlds look the same on the footprint. -/
structure Coincide (F : Footprint) (w u : World) : Prop where
  slots : ∀ s ∈ F.slots, w.slots.find? s = u.slots.find? s
  held : ∀ p ∈ F.held, w.held.find? p = u.held.find? p
  values : ∀ name ∈ F.values, w.values.find? name = u.values.find? name

/-- What is found on the footprint leads nowhere else. -/
structure Closed (F : Footprint) (w : World) : Prop where
  storage : ∀ s ∈ F.slots, ∀ v, w.storageOf s = some v → v.LeadsInto F
  held : ∀ p ∈ F.held, ∀ h, w.held.find? p = some h → h.LeadsInto F
  values : ∀ name ∈ F.values, ∀ v, w.values.find? name = some v → v.LeadsInto F

/-- Nothing has changed outside of the footprint. -/
structure Confined (F : Footprint) (w w' : World) : Prop where
  keys : w'.slots.map Prod.fst = w.slots.map Prod.fst
  slots : ∀ s, s ∉ F.slots → w'.slots.find? s = w.slots.find? s
  held : ∀ p, p ∉ F.held → w'.held.find? p = w.held.find? p
  values : ∀ name, name ∉ F.values → w'.values.find? name = w.values.find? name
  bag : w'.bag = w.bag

/-- Two worlds that look the same on a footprint, and lead nowhere else. -/
structure Paired (F : Footprint) (w u : World) : Prop where
  coincide : w.Coincide F u
  closed : w.Closed F
  left : w.slots.Distinct
  right : u.slots.Distinct

/-- Two worlds went the same way, and nothing happened outside of the footprint. -/
structure Together (F : Footprint) (w w' u u' : World) : Prop where
  coincide : w'.Coincide F u'
  left : w.Confined F w'
  right : u.Confined F u'
  trace : ∃ es, w'.trace = w.trace ++ es ∧ u'.trace = u.trace ++ es ∧ ∀ s, s ∉ F.slots → lifeOf s es = []

/-! ### Relations between worlds -/

theorem Coincide.refl (F : Footprint) (w : World) : w.Coincide F w := ⟨fun _ _ => rfl, fun _ _ => rfl, fun _ _ => rfl⟩

theorem Coincide.controlOf (h : w.Coincide F u) (hs : s ∈ F.slots) : w.controlOf s = u.controlOf s := by
  unfold World.controlOf
  rw [h.slots s hs]

theorem Coincide.storageOf (h : w.Coincide F u) (hs : s ∈ F.slots) : w.storageOf s = u.storageOf s := by
  unfold World.storageOf
  rw [h.slots s hs]

theorem Coincide.handle? (h : w.Coincide F u) (hp : p.In F) : w.handle? p = u.handle? p := by
  cases p with
  | named n | result n => exact h.held _ hp
  | inside s =>
    unfold World.handle?
    dsimp only
    rw [h.storageOf hp]
  | within n =>
    unfold World.handle?
    dsimp only
    rw [h.values n hp]

theorem Coincide.live? (h : w.Coincide F u) (hp : p.In F) : w.live? p = u.live? p := by
  cases p with
  | named n | result n | within n => exact h.handle? hp
  | inside s =>
    unfold World.live? nestedIn
    dsimp only
    rw [h.controlOf hp, h.storageOf hp]

theorem Coincide.object? (h : w.Coincide F u) {r : Region} (hr : r.In F) : w.object? r = u.object? r := by
  cases r with
  | slot s => exact h.storageOf hr
  | named n => exact h.values n hr

theorem Closed.handle? (hw : w.Closed F) (hp : p.In F) (hh : w.handle? p = some h) : h.LeadsInto F := by
  cases p with
  | named n | result n => exact hw.held _ hp h hh
  | inside s =>
    obtain ⟨v, hv, hn⟩ := Option.bind_eq_some_iff.mp hh
    exact (hw.storage s hp v hv).next h hn
  | within n =>
    obtain ⟨v, hv, hn⟩ := Option.bind_eq_some_iff.mp hh
    exact (hw.values n hp v hv).next h hn

theorem Closed.object? (hw : w.Closed F) {r : Region} (hr : r.In F) (hv : w.object? r = some v) : v.LeadsInto F := by
  cases r with
  | slot s => exact hw.storage s hr v hv
  | named n => exact hw.values n hr v hv

theorem Confined.refl (F : Footprint) (w : World) : w.Confined F w :=
  ⟨rfl, fun _ _ => rfl, fun _ _ => rfl, fun _ _ => rfl, rfl⟩

theorem Confined.trans (h : w.Confined F u) (h' : u.Confined F w') : w.Confined F w' where
  keys := h'.keys.trans h.keys
  slots s hs := (h'.slots s hs).trans (h.slots s hs)
  held p hp := (h'.held p hp).trans (h.held p hp)
  values n hn := (h'.values n hn).trans (h.values n hn)
  bag := h'.bag.trans h.bag

theorem Confined.controlOf (h : w.Confined F w') (hs : s ∉ F.slots) : w'.controlOf s = w.controlOf s := by
  unfold World.controlOf
  rw [h.slots s hs]

theorem Confined.storageOf (h : w.Confined F w') (hs : s ∉ F.slots) : w'.storageOf s = w.storageOf s := by
  unfold World.storageOf
  rw [h.slots s hs]

theorem Confined.live? (h : w.Confined F w') (hp : ¬ p.In F) : w'.live? p = w.live? p := by
  cases p with
  | named n | result n => exact h.held _ hp
  | inside s =>
    unfold World.live? nestedIn
    dsimp only
    rw [h.controlOf hp, h.storageOf hp]
  | within n =>
    unfold World.live? World.handle?
    dsimp only
    rw [h.values n hp]

theorem Together.refl (h : w.Coincide F u) : Together F w w u u :=
  ⟨h, .refl F w, .refl F u, [], by simp, by simp, fun _ _ => rfl⟩

theorem Together.trans {x y : World} (h : Together F w x u y) (h' : Together F x w' y u') : Together F w w' u u' := by
  obtain ⟨es, hx, hy, hq⟩ := h.trace
  obtain ⟨es', hx', hy', hq'⟩ := h'.trace
  refine ⟨h'.coincide, h.left.trans h'.left, h.right.trans h'.right, es ++ es', ?_, ?_, ?_⟩
  · rw [hx', hx, List.append_assoc]
  · rw [hy', hy, List.append_assoc]
  · intro s hs
    rw [lifeOf_append, hq s hs, hq' s hs, List.append_nil]

theorem Paired.together (h : Paired F w u) (ht : Together F w w' u u') (hc : w'.Closed F) : Paired F w' u' :=
  ⟨ht.coincide, hc, distinct_of_keys ht.left.keys h.left, distinct_of_keys ht.right.keys h.right⟩

end World

/-! ### What leads into a footprint -/

theorem Handle.leadsInto_empty (F : Footprint) (family : Family) (elem : Ty) : (Handle.empty family elem).LeadsInto F := by
  constructor
  · intro s hs
    cases hs
  · intro a ha
    cases elem <;> cases ha

theorem Handle.LeadsInto.cleared (_ : h.LeadsInto F) : h.cleared.LeadsInto F := leadsInto_empty F h.family h.elem

theorem Handle.LeadsInto.convert (hh : h.LeadsInto F) (elem : Ty) : (h.convert elem).LeadsInto F := by
  refine ⟨fun s hs => hh.slot s (by rwa [Handle.slot_convert] at hs), ?_⟩
  intro a ha
  unfold Handle.convert at ha
  split at ha
  · exact hh.address a ha
  · obtain ⟨b, hb, rfl⟩ := Option.map_eq_some_iff.mp ha
    exact hh.address b hb

theorem Value.LeadsInto.withNext (hv : v.LeadsInto F) (hh : h.LeadsInto F) : (v.withNext h).LeadsInto F := by
  refine ⟨isPassive_withNext.trans hv.passive, ?_⟩
  intro g hg
  cases v with
  | node id next | snode id next =>
    cases hg
    exact hh
  | _ => cases hg

theorem Value.leadsInto_blank (F : Footprint) (t : StoredType) : (Value.blank t).LeadsInto F := by
  have hempty := Handle.leadsInto_empty F
  cases t with
  | collection item n => exact ⟨rfl, fun h hn => by cases hn⟩
  | single k =>
    cases k with
    | node | snode => exact ⟨rfl, fun h hn => by cases hn; exact hempty _ _⟩
    | _ => exact ⟨rfl, fun h hn => by cases hn⟩

theorem Value.LeadsInto.change {f : Value → Value} (hv : v.LeadsInto F) (hf : Value.KeepsLink f) :
    (f v).LeadsInto F := by
  obtain ⟨-, hn, hp⟩ := hf v
  exact ⟨hp.trans hv.passive, fun h hh => hv.next h (hn.symm.trans hh)⟩

namespace World

theorem Closed.objectAs (hw : w.Closed F) {r : Region} (hr : r.In F) (t : StoredType) :
    (w.objectAs r t).LeadsInto F := by
  unfold World.objectAs
  cases hv : w.object? r with
  | none => exact Value.leadsInto_blank F t
  | some v =>
    dsimp only
    split
    · exact hw.object? hr hv
    · exact Value.leadsInto_blank F t

end World

/-! ### Look-ups in two tables -/

section

variable {κ ν : Type} [DecidableEq κ] {t t' : Table κ ν} {k key : κ} {x value : ν}

/-- A table is its keys in order and what it has for them. -/
theorem Table.ext_of_find? (hd : t.Distinct) (hk : t'.map Prod.fst = t.map Prod.fst)
    (h : ∀ key, t'.find? key = t.find? key) : t' = t := by
  induction t generalizing t' with
  | nil => exact List.map_eq_nil_iff.mp hk
  | cons e rest ih =>
    obtain ⟨e', rest', rfl⟩ : ∃ e' rest', t' = e' :: rest' := by
      cases t' with
      | nil => cases hk
      | cons e' rest' => exact ⟨e', rest', rfl⟩
    obtain ⟨hkey, hrest⟩ := List.cons_eq_cons.mp hk
    obtain ⟨hnot, hd'⟩ := List.nodup_cons.mp hd
    have hvalue := h e.1
    unfold find? at hvalue
    rw [if_pos hkey, if_pos rfl] at hvalue
    obtain rfl : e' = e := Prod.ext hkey (Option.some_inj.mp hvalue)
    congr 1
    refine ih hd' hrest fun key => ?_
    by_cases hke : e'.1 = key
    · -- the key of the first entry is in neither of the rests
      subst hke
      rw [find?_eq_none_iff.mpr hnot, find?_eq_none_iff.mpr (hrest ▸ hnot)]
    · have hother := h key
      unfold find? at hother
      rwa [if_neg hke, if_neg hke] at hother

theorem Table.find?_put_congr (h : t.find? k = t'.find? k) (key : κ) (value : ν) :
    (t.put key value).find? k = (t'.put key value).find? k := by
  by_cases hk : k = key
  · subst hk
    rw [find?_put_self, find?_put_self]
  · rw [find?_put_of_ne _ _ hk, find?_put_of_ne _ _ hk, h]

theorem Table.find?_remove_congr (h : t.find? k = t'.find? k) (key : κ) :
    (t.remove key).find? k = (t'.remove key).find? k := by
  by_cases hk : k = key
  · subst hk
    rw [find?_remove_self, find?_remove_self]
  · rw [find?_remove_of_ne _ hk, find?_remove_of_ne _ hk, h]

theorem Table.eq_or_find?_of_put (h : (t.put key value).find? k = some x) : x = value ∨ t.find? k = some x := by
  by_cases hk : k = key
  · subst hk
    rw [find?_put_self] at h
    exact .inl (Option.some_inj.mp h).symm
  · rw [find?_put_of_ne _ _ hk] at h
    exact .inr h

theorem Table.find?_of_remove (h : (t.remove key).find? k = some x) : t.find? k = some x := by
  by_cases hk : k = key
  · subst hk
    rw [find?_remove_self] at h
    cases h
  · rwa [find?_remove_of_ne _ hk] at h

end

namespace World

/-! ### Updates on a footprint -/

theorem Coincide.setControl (h : w.Coincide F u) (hs : s ∈ F.slots) (c : ControlBlock) :
    Together F w (w.setControl s c) u (u.setControl s c) := by
  have hconfined : ∀ w : World, w.Confined F (w.setControl s c) := by
    intro w
    refine ⟨keys_setControl .., ?_, fun _ _ => rfl, fun _ _ => rfl, rfl⟩
    intro t ht
    have hts : t ≠ s := fun e => ht (e ▸ hs)
    rw [find?_setControl, if_neg hts]
  refine ⟨⟨?_, h.held, h.values⟩, hconfined w, hconfined u, [], (List.append_nil _).symm, (List.append_nil _).symm,
    fun _ _ => rfl⟩
  intro t ht
  rw [find?_setControl, find?_setControl, h.slots t ht]

theorem Coincide.setStorage (h : w.Coincide F u) (hs : s ∈ F.slots) (v : Value) :
    Together F w (w.setStorage s v) u (u.setStorage s v) := by
  have hconfined : ∀ w : World, w.Confined F (w.setStorage s v) := by
    intro w
    refine ⟨keys_setStorage .., ?_, fun _ _ => rfl, fun _ _ => rfl, rfl⟩
    intro t ht
    have hts : t ≠ s := fun e => ht (e ▸ hs)
    rw [find?_setStorage, if_neg hts]
  refine ⟨⟨?_, h.held, h.values⟩, hconfined w, hconfined u, [], (List.append_nil _).symm, (List.append_nil _).symm,
    fun _ _ => rfl⟩
  intro t ht
  rw [find?_setStorage, find?_setStorage, h.slots t ht]

theorem Coincide.log (h : w.Coincide F u) (es : List Event) (hes : ∀ s, s ∉ F.slots → lifeOf s es = []) :
    Together F w (w.log es) u (u.log es) :=
  ⟨⟨h.slots, h.held, h.values⟩, ⟨rfl, fun _ _ => rfl, fun _ _ => rfl, fun _ _ => rfl, rfl⟩,
    ⟨rfl, fun _ _ => rfl, fun _ _ => rfl, fun _ _ => rfl, rfl⟩, es, rfl, rfl, hes⟩

/-- The program's own places get another table, which differs at a place of the footprint only. -/
theorem Coincide.changeHeld (h : w.Coincide F u) {hw hu : Table Holder Handle}
    (hsame : ∀ p ∈ F.held, hw.find? p = hu.find? p) (hleft : ∀ p, p ∉ F.held → hw.find? p = w.held.find? p)
    (hright : ∀ p, p ∉ F.held → hu.find? p = u.held.find? p) :
    Together F w { w with held := hw } u { u with held := hu } :=
  ⟨⟨h.slots, hsame, h.values⟩, ⟨rfl, fun _ _ => rfl, hleft, fun _ _ => rfl, rfl⟩,
    ⟨rfl, fun _ _ => rfl, hright, fun _ _ => rfl, rfl⟩, [], (List.append_nil _).symm, (List.append_nil _).symm,
    fun _ _ => rfl⟩

/-- The values that were taken out get another table, which differs at a name of the footprint only. -/
theorem Coincide.changeValues (h : w.Coincide F u) {vw vu : Table String Value}
    (hsame : ∀ n ∈ F.values, vw.find? n = vu.find? n) (hleft : ∀ n, n ∉ F.values → vw.find? n = w.values.find? n)
    (hright : ∀ n, n ∉ F.values → vu.find? n = u.values.find? n) :
    Together F w { w with values := vw } u { u with values := vu } :=
  ⟨⟨h.slots, h.held, hsame⟩, ⟨rfl, fun _ _ => rfl, fun _ _ => rfl, hleft, rfl⟩,
    ⟨rfl, fun _ _ => rfl, fun _ _ => rfl, hright, rfl⟩, [], (List.append_nil _).symm, (List.append_nil _).symm,
    fun _ _ => rfl⟩

theorem Coincide.putHeld (h : w.Coincide F u) (hp : p ∈ F.held) (g : Handle) :
    Together F w { w with held := w.held.put p g } u { u with held := u.held.put p g } :=
  h.changeHeld (fun q hq => Table.find?_put_congr (h.held q hq) p g)
    (fun _ hq => Table.find?_put_of_ne _ _ fun e => hq (e ▸ hp)) fun _ hq =>
    Table.find?_put_of_ne _ _ fun e => hq (e ▸ hp)

theorem Coincide.putValue (h : w.Coincide F u) {name : String} (hn : name ∈ F.values) (v : Value) :
    Together F w { w with values := w.values.put name v } u { u with values := u.values.put name v } :=
  h.changeValues (fun m hm => Table.find?_put_congr (h.values m hm) name v)
    (fun _ hm => Table.find?_put_of_ne _ _ fun e => hm (e ▸ hn)) fun _ hm =>
    Table.find?_put_of_ne _ _ fun e => hm (e ▸ hn)

/-! ### Updates of worlds that lead nowhere else -/

theorem Paired.setControl (h : Paired F w u) (hs : s ∈ F.slots) (c : ControlBlock) :
    Together F w (w.setControl s c) u (u.setControl s c) ∧ (w.setControl s c).Closed F :=
  ⟨h.coincide.setControl hs c, fun t ht v hv => h.closed.storage t ht v ((storageOf_setControl ..).symm.trans hv),
    h.closed.held, h.closed.values⟩

theorem Paired.setStorage (h : Paired F w u) (hs : s ∈ F.slots) (hv : v.LeadsInto F) :
    Together F w (w.setStorage s v) u (u.setStorage s v) ∧ (w.setStorage s v).Closed F := by
  refine ⟨h.coincide.setStorage hs v, ?_, h.closed.held, h.closed.values⟩
  intro t ht x hx
  by_cases hts : t = s
  · subst hts
    have hfound := storageOf_isSome (by rw [hx]; rfl : ((w.setStorage t v).storageOf t).isSome)
    rw [find?_setStorage, if_pos rfl, Option.isSome_map] at hfound
    rw [storageOf_setStorage_self v hfound] at hx
    cases hx
    exact hv
  · rw [storageOf_setStorage_of_ne _ _ hts] at hx
    exact h.closed.storage t ht x hx

theorem Paired.log (h : Paired F w u) (es : List Event) (hes : ∀ s, s ∉ F.slots → lifeOf s es = []) :
    Together F w (w.log es) u (u.log es) ∧ (w.log es).Closed F :=
  ⟨h.coincide.log es hes, h.closed.storage, h.closed.held, h.closed.values⟩

theorem Paired.putHeld (h : Paired F w u) (hp : p ∈ F.held) {g : Handle} (hg : g.LeadsInto F) :
    Together F w { w with held := w.held.put p g } u { u with held := u.held.put p g } ∧
      ({ w with held := w.held.put p g } : World).Closed F := by
  refine ⟨h.coincide.putHeld hp g, h.closed.storage, ?_, h.closed.values⟩
  intro q hq k hk
  rcases Table.eq_or_find?_of_put hk with rfl | hk
  · exact hg
  · exact h.closed.held q hq k hk

theorem Paired.removeHeld (h : Paired F w u) (hp : p ∈ F.held) :
    Together F w { w with held := w.held.remove p } u { u with held := u.held.remove p } ∧
      ({ w with held := w.held.remove p } : World).Closed F :=
  ⟨h.coincide.changeHeld (fun q hq => Table.find?_remove_congr (h.coincide.held q hq) p)
      (fun _ hq => Table.find?_remove_of_ne _ fun e => hq (e ▸ hp)) fun _ hq =>
      Table.find?_remove_of_ne _ fun e => hq (e ▸ hp),
    h.closed.storage, fun q hq _ hk => h.closed.held q hq _ (Table.find?_of_remove hk), h.closed.values⟩

theorem Paired.putValue (h : Paired F w u) {name : String} (hn : name ∈ F.values) (hv : v.LeadsInto F) :
    Together F w { w with values := w.values.put name v } u { u with values := u.values.put name v } ∧
      ({ w with values := w.values.put name v } : World).Closed F := by
  refine ⟨h.coincide.putValue hn v, h.closed.storage, h.closed.held, ?_⟩
  intro m hm x hx
  rcases Table.eq_or_find?_of_put hx with rfl | hx
  · exact hv
  · exact h.closed.values m hm x hx

theorem Paired.removeValue (h : Paired F w u) {name : String} (hn : name ∈ F.values) :
    Together F w { w with values := w.values.remove name } u { u with values := u.values.remove name } ∧
      ({ w with values := w.values.remove name } : World).Closed F :=
  ⟨h.coincide.changeValues (fun m hm => Table.find?_remove_congr (h.coincide.values m hm) name)
      (fun _ hm => Table.find?_remove_of_ne _ fun e => hm (e ▸ hn)) fun _ hm =>
      Table.find?_remove_of_ne _ fun e => hm (e ▸ hn),
    h.closed.storage, h.closed.held, fun m hm _ hx => h.closed.values m hm _ (Table.find?_of_remove hx)⟩

theorem Paired.same (h : Paired F w u) : Together F w w u u ∧ w.Closed F := ⟨.refl h.coincide, h.closed⟩

theorem Paired.setHandle (h : Paired F w u) (hp : p.In F) {g : Handle} (hg : g.LeadsInto F) :
    Together F w (w.setHandle p g) u (u.setHandle p g) ∧ (w.setHandle p g).Closed F := by
  cases p with
  | named n | result n => exact h.putHeld hp hg
  | inside s =>
    unfold World.setHandle
    dsimp only
    rw [← h.coincide.storageOf hp]
    cases hv : w.storageOf s with
    | none => exact h.same
    | some v => exact h.setStorage hp ((h.closed.storage s hp v hv).withNext hg)
  | within n =>
    unfold World.setHandle
    dsimp only
    rw [← h.coincide.values n hp]
    cases hv : w.values.find? n with
    | none => exact h.same
    | some v => exact h.putValue hp ((h.closed.values n hp v hv).withNext hg)

theorem Paired.setObject (h : Paired F w u) {r : Region} (hr : r.In F) (hv : v.LeadsInto F) :
    Together F w (w.setObject r v) u (u.setObject r v) ∧ (w.setObject r v).Closed F := by
  cases r with
  | slot s => exact h.setStorage hr hv
  | named n => exact h.putValue hr hv

end World

/-! ### Two runs -/

/-- Two actions, each from its own world, end in the same way: with one result in `good`, or with one failure. -/
def Accord (F : Footprint) (good : α → Prop) (a b : Act α) (w u : World) : Prop :=
  match a w, b u with
  | .ok x w', .ok y u' => x = y ∧ good x ∧ Together F w w' u u' ∧ w'.Closed F
  | .error f w', .error g u' => f = g ∧ Together F w w' u u'
  | _, _ => False

/-- From worlds that look the same on the footprint, the action ends in the same way. -/
def Local (F : Footprint) (good : α → Prop) (a : Act α) : Prop := ∀ w u, Paired F w u → Accord F good a a w u

section

variable {good : α → Prop} {good' : β → Prop} {a b : Act α}

theorem accord_of_ok {x : α} (ha : a w = .ok x w') (hb : b u = .ok x u') (hx : good x)
    (h : Together F w w' u u' ∧ w'.Closed F) : Accord F good a b w u := by
  unfold Accord
  rw [ha, hb]
  exact ⟨rfl, hx, h⟩

theorem accord_of_error {f : Failure} (ha : a w = .error f w') (hb : b u = .error f u') (h : Together F w w' u u') :
    Accord F good a b w u := by
  unfold Accord
  rw [ha, hb]
  exact ⟨rfl, h⟩

theorem accord_congr {a' b' : Act α} {x y : World} (ha : a w = a' x) (hb : b u = b' y) (ht : Together F w x u y)
    (h : Accord F good a' b' x y) : Accord F good a b w u := by
  unfold Accord at h ⊢
  rw [ha, hb]
  cases ea : a' x with
  | ok r w' =>
    cases eb : b' y with
    | ok r' u' =>
      rw [ea, eb] at h
      exact ⟨h.1, h.2.1, ht.trans h.2.2.1, h.2.2.2⟩
    | error => rw [ea, eb] at h; exact h
  | error f w' =>
    cases eb : b' y with
    | ok => rw [ea, eb] at h; exact h
    | error f' u' =>
      rw [ea, eb] at h
      exact ⟨h.1, ht.trans h.2⟩

theorem Accord.bind {f g : α → Act β} (h : Paired F w u) (ha : Accord F good a b w u)
    (hf : ∀ x w' u', good x → Paired F w' u' → Accord F good' (f x) (g x) w' u') :
    Accord F good' (a >>= f) (b >>= g) w u := by
  unfold Accord at ha
  cases ea : a w with
  | ok x w' =>
    cases eb : b u with
    | ok y u' =>
      rw [ea, eb] at ha
      obtain ⟨rfl, hx, ht, hc⟩ := ha
      exact accord_congr (bind_of_ok ea) (bind_of_ok eb) ht (hf x w' u' hx (h.together ht hc))
    | error => rw [ea, eb] at ha; exact ha.elim
  | error e w' =>
    cases eb : b u with
    | ok => rw [ea, eb] at ha; exact ha.elim
    | error e' u' =>
      rw [ea, eb] at ha
      obtain ⟨rfl, ht⟩ := ha
      exact accord_of_error (bind_of_error ea) (bind_of_error eb) ht

theorem local_pure {x : α} (hx : good x) : Local F good (pure x) := fun _ _ h => accord_of_ok rfl rfl hx h.same

theorem local_throw (f : Failure) : Local F good (throw f : Act α) := fun _ _ h =>
  accord_of_error rfl rfl (.refl h.coincide)

theorem Local.bind {f : α → Act β} (ha : Local F good a) (hf : ∀ x, good x → Local F good' (f x)) :
    Local F good' (a >>= f) := fun w u h =>
  (ha w u h).bind h fun x w' u' hx h' => hf x hx w' u' h'

theorem local_ite {c : Prop} [Decidable c] (ha : Local F good a) (hb : Local F good b) :
    Local F good (if c then a else b) := by
  split
  · exact ha
  · exact hb

/-- A world that is read counts by what it looks like on the footprint. -/
theorem local_get_bind {f : World → Act α} (h : ∀ w u, Paired F w u → Accord F good (f w) (f u) w u) :
    Local F good (get >>= f) := fun w u hp =>
  accord_congr (bind_of_ok rfl) (bind_of_ok rfl) (.refl hp.coincide) (h w u hp)

theorem local_modify {f : World → World} (h : ∀ w u, Paired F w u → Together F w (f w) u (f u) ∧ (f w).Closed F) :
    Local F (fun _ => True) (modify f) := fun w u hp => accord_of_ok rfl rfl trivial (h w u hp)

end

end SlotHandles
