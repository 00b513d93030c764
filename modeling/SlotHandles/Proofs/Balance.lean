import SlotHandles.Proofs.LiveHandles
import SlotHandles.Proofs.Outcome
import SlotHandles.Proofs.References
import Mathlib.Tactic.Abel

/-!
# Balance of slots and handles

`World.Balanced w outside` is the invariant that ties the slots of a world to the handles: `outside` are the handles
that are alive outside of slots, and the handles in slots are `w.nested`.  An occupied slot holds a value of the type
its control block names, every handle refers to the value of its own slot, and the count of a slot is the number of
the handles that own its value: one exclusive one, or some shared ones.

The invariant says nothing about the count of a slot that is not occupied, so it also holds in the middle of an
operation, while a slot is under construction or being torn down and a handle is on its way from one place to
another.  There is one lemma for every way in which slots change.
-/

namespace SlotHandles

/-- The family and the element type of the handle that values of the type store. -/
def StoredType.link? : StoredType → Option (Family × Ty)
  | .single .node => some (.unique, .ofKind .node)
  | .single .snode => some (.shared, .ofKind .snode)
  | _ => none

/-- A value of a handle program: it is passive, and the handle it stores is of its type's own kind. -/
structure Value.IsProper (v : Value) : Prop where
  passive : v.isPassive = true
  link : ∀ h, v.next? = some h → v.type.link? = some (h.family, h.elem)

/-- The count of an occupied slot is the number of its owners: a single exclusive one, or some shared ones. -/
structure ControlBlock.OwnedBy (c : ControlBlock) (unique shared : Nat) : Prop where
  count : c.count.toNat = unique + shared
  alone : unique = 1 ∧ shared = 0 ∨ unique = 0 ∧ 0 < shared

namespace World

/-- The slots agree with the handles in them and outside of them. -/
structure Balanced (w : World) (outside : Multiset Handle) : Prop where
  distinct : w.slots.Distinct
  stored : ∀ s, (w.controlOf s).state = .occupied → ∃ v, w.storageOf s = some v ∧ (w.controlOf s).type = some v.type ∧
    v.IsProper ∧ (w.controlOf s).hasRoom v.type.size v.type.alignment
  refers : ∀ h ∈ outside + w.nested, h.RefersIn w
  owned : ∀ s, (w.controlOf s).state = .occupied →
    (w.controlOf s).OwnedBy (owners (outside + w.nested) .unique s) (owners (outside + w.nested) .shared s)

end World

namespace Value

variable {v : Value} {h old : Handle}

theorem next?_withNext (hn : v.next? = some old) : (v.withNext h).next? = some h := by
  cases v <;> simp_all [next?, withNext]

theorem isPassive_withNext : (v.withNext h).isPassive = v.isPassive := by
  cases v <;> rfl

theorem IsProper.withNext (hv : v.IsProper) (hn : v.next? = some old) (hf : h.family = old.family)
    (he : h.elem = old.elem) : (v.withNext h).IsProper := by
  refine ⟨isPassive_withNext.trans hv.passive, ?_⟩
  intro g hg
  rw [next?_withNext hn] at hg
  cases hg
  rw [type_withNext, hf, he]
  exact hv.link old hn

theorem IsProper.change {f : Value → Value} (hv : v.IsProper) (hf : KeepsLink f) : (f v).IsProper := by
  obtain ⟨ht, hn, hp⟩ := hf v
  refine ⟨hp.trans hv.passive, ?_⟩
  rw [ht, hn]
  exact hv.link

end Value

/-- A handle that is the only owner of its slot: no other one names the slot. -/
theorem ControlBlock.OwnedBy.slot_ne_of_alone {c : ControlBlock} {h k : Handle} {s : SlotId} {others : Multiset Handle}
    (ho : c.OwnedBy (owners (h ::ₘ others) .unique s) (owners (h ::ₘ others) .shared s)) (hs : h.slot = some s)
    (hcount : c.count = 1) (hk : k ∈ others) : k.slot ≠ some s := by
  intro hks
  have hpos : 0 < owners others k.family s := owners_pos_iff.mpr ⟨k, hk, rfl, hks⟩
  have hsum := ho.count
  rw [hcount, owners_cons, owners_cons] at hsum
  have hone : (1 : UInt32).toNat = 1 := rfl
  cases hf : h.family <;> cases hk : k.family <;> simp [hf, hs, hk] at hsum hpos <;> omega

theorem toNat_add_one {n : UInt32} (hn : n ≠ 0xffffffff) : (n + 1).toNat = n.toNat + 1 := by
  have hlt : n.toNat < 2 ^ 32 := n.toNat_lt
  have hne : n.toNat ≠ 2 ^ 32 - 1 := fun e => hn (UInt32.toNat_inj.mp e)
  rw [UInt32.toNat_add]
  change (n.toNat + 1) % 2 ^ 32 = _
  omega

namespace World.Balanced

variable {w w' : World} {s : SlotId} {v : Value} {h g : Handle} {c : ControlBlock} {outside X Y : Multiset Handle}

/-- The invariant concerns slots only. -/
theorem congr (hb : w.Balanced X) (hw : w'.slots = w.slots) : w'.Balanced X := by
  have hc : ∀ s, w'.controlOf s = w.controlOf s := fun s => by unfold controlOf; rw [hw]
  have hs : ∀ s, w'.storageOf s = w.storageOf s := fun s => by unfold storageOf; rw [hw]
  have hn : w'.nested = w.nested := by unfold nested; rw [hw]
  refine ⟨hw ▸ hb.distinct, ?_, ?_, ?_⟩
  · intro s
    rw [hc, hs]
    exact hb.stored s
  · intro h hh
    rw [hn] at hh
    exact (hb.refers h hh).congr fun s _ => typeIn_congr (hc s)
  · intro s
    rw [hc, hn]
    exact hb.owned s

theorem log (hb : w.Balanced X) (es : List Event) : (w.log es).Balanced X := hb.congr rfl

theorem refers_of_cons (hb : w.Balanced (h ::ₘ X)) : ∀ k ∈ X + w.nested, k.RefersIn w := by
  intro k hk
  apply hb.refers
  rw [Multiset.cons_add]
  exact Multiset.mem_cons_of_mem hk

theorem occupied (hb : w.Balanced X) (hh : h ∈ X + w.nested) (hs : h.slot = some s) :
    (w.controlOf s).state = .occupied := (hb.refers h hh).occupied hs

theorem owners_of_not_occupied (hb : w.Balanced X) (ho : (w.controlOf s).state ≠ .occupied) (family : Family) :
    owners (X + w.nested) family s = 0 := by
  by_contra hne
  obtain ⟨h, hh, -, hs⟩ := owners_pos_iff.mp (Nat.pos_of_ne_zero hne)
  exact ho (hb.occupied hh hs)

/-- The value of an occupied slot, and the handle in it. -/
theorem value (hb : w.Balanced X) (ho : (w.controlOf s).state = .occupied) :
    ∃ v, w.storageOf s = some v ∧ w.typeIn s = some v.type ∧ w.nestedIn s = v.next? ∧ v.IsProper := by
  obtain ⟨v, hv, ht, hp, -⟩ := hb.stored s ho
  refine ⟨v, hv, (typeIn_of_occupied ho).trans ht, ?_, hp⟩
  rw [nestedIn_of_occupied ho, hv, Option.bind_some]

theorem value_of_storage (hb : w.Balanced X) (ho : (w.controlOf s).state = .occupied) (hv : w.storageOf s = some v) :
    w.typeIn s = some v.type ∧ w.nestedIn s = v.next? ∧ v.IsProper := by
  obtain ⟨u, hu, ht, hn, hp⟩ := hb.value ho
  obtain rfl : u = v := Option.some_inj.mp (hu.symm.trans hv)
  exact ⟨ht, hn, hp⟩

theorem value_of_type {t : StoredType} (hb : w.Balanced X) (ht : w.typeIn s = some t) :
    ∃ v, w.storageOf s = some v ∧ v.type = t := by
  obtain ⟨v, hv, hvt, -⟩ := hb.value (typeIn_eq_some_iff.mp ht).1
  exact ⟨v, hv, Option.some_inj.mp (hvt.symm.trans ht)⟩

/-! ### Handles outside of slots -/

/-- A handle outside of slots can be replaced by one of the same family and slot. -/
theorem replace (hb : w.Balanced (h ::ₘ X)) (hf : g.family = h.family) (hs : g.slot = h.slot) (hr : g.RefersIn w) :
    w.Balanced (g ::ₘ X) := by
  have ho : ∀ family t, owners (g ::ₘ X + w.nested) family t = owners (h ::ₘ X + w.nested) family t := by
    intro family t
    rw [owners_add, owners_add, owners_cons_congr hf hs]
  refine ⟨hb.distinct, hb.stored, ?_, ?_⟩
  · intro k hk
    rw [Multiset.cons_add, Multiset.mem_cons] at hk
    rcases hk with rfl | hk
    · exact hr
    · exact hb.refers_of_cons k hk
  · intro t ht
    rw [ho, ho]
    exact hb.owned t ht

/-- Empty handles do not matter. -/
theorem cons_iff_of_empty (hs : h.slot = none) (hr : h.RefersIn w) : w.Balanced (h ::ₘ X) ↔ w.Balanced X := by
  have ho : ∀ family t, owners (h ::ₘ X + w.nested) family t = owners (X + w.nested) family t := by
    intro family t
    rw [Multiset.cons_add, owners_cons, hs]
    simp
  constructor
  · intro hb
    refine ⟨hb.distinct, hb.stored, hb.refers_of_cons, ?_⟩
    intro t ht
    rw [← ho, ← ho]
    exact hb.owned t ht
  · intro hb
    refine ⟨hb.distinct, hb.stored, ?_, ?_⟩
    · intro k hk
      rw [Multiset.cons_add, Multiset.mem_cons] at hk
      rcases hk with rfl | hk
      · exact hr
      · exact hb.refers k hk
    · intro t ht
      rw [ho, ho]
      exact hb.owned t ht

/-! ### Changes of a slot that holds no value -/

theorem setControl_idle (hb : w.Balanced X) (hw : (w.controlOf s).state ≠ .occupied) (hc : c.state ≠ .occupied) :
    (w.setControl s c).Balanced X := by
  have hself := state_setControl_ne_occupied w s hc
  have hocc : ∀ t, ((w.setControl s c).controlOf t).state = .occupied → t ≠ s := by
    rintro t ht rfl
    exact hself ht
  have hn := nested_setControl_idle hb.distinct hw hc
  have htype : ∀ t, (w.setControl s c).typeIn t = w.typeIn t := by
    intro t
    by_cases h : t = s
    · subst h
      rw [typeIn_of_not_occupied hself, typeIn_of_not_occupied hw]
    · exact typeIn_setControl_of_ne _ _ h
  refine ⟨distinct_setControl hb.distinct s c, ?_, ?_, ?_⟩
  · intro t ht
    have hne := hocc t ht
    rw [controlOf_setControl_of_ne _ _ hne] at ht ⊢
    rw [storageOf_setControl]
    exact hb.stored t ht
  · intro k hk
    rw [hn] at hk
    exact (hb.refers k hk).congr fun t _ => htype t
  · intro t ht
    have hne := hocc t ht
    rw [controlOf_setControl_of_ne _ _ hne] at ht ⊢
    rw [hn]
    exact hb.owned t ht

theorem setStorage_idle (hb : w.Balanced X) (hw : (w.controlOf s).state ≠ .occupied) (v : Value) :
    (w.setStorage s v).Balanced X := by
  have hn := nested_setStorage_idle hb.distinct hw v
  refine ⟨distinct_setStorage hb.distinct s v, ?_, ?_, ?_⟩
  · intro t ht
    rw [controlOf_setStorage] at ht ⊢
    have hne : t ≠ s := by
      rintro rfl
      exact hw ht
    rw [storageOf_setStorage_of_ne _ _ hne]
    exact hb.stored t ht
  · intro k hk
    rw [hn] at hk
    exact (hb.refers k hk).congr fun t _ => typeIn_setStorage ..
  · intro t ht
    rw [controlOf_setStorage] at ht ⊢
    rw [hn]
    exact hb.owned t ht

/-! ### Changes of a slot that holds a value -/

/-- Another value of the same type in an occupied slot: the handles in the two values change places. -/
theorem setStorage {v' : Value} (hb : w.Balanced Y)
    (hXY : X + (v'.next?.toList : Multiset Handle) = Y + (v.next?.toList : Multiset Handle))
    (ho : (w.controlOf s).state = .occupied) (hv : w.storageOf s = some v) (ht : v'.type = v.type) (hp : v'.IsProper) :
    (w.setStorage s v').Balanced X := by
  have ho' : ((w.setStorage s v').controlOf s).state = .occupied := by rwa [controlOf_setStorage]
  -- the two values exchange their handles, so all live handles together stay the same
  have hall : X + (w.setStorage s v').nested = Y + w.nested := by
    have e := nested_setStorage hb.distinct s v'
    rw [nestedIn_of_occupied ho, nestedIn_of_occupied ho', hv,
      storageOf_setStorage_self _ (find?_isSome_of_occupied ho), Option.bind_some, Option.bind_some] at e
    apply add_right_cancel (b := (v.next?.toList : Multiset Handle))
    rw [add_assoc, e, add_left_comm, hXY]
    abel
  refine ⟨distinct_setStorage hb.distinct s v', ?_, ?_, ?_⟩
  · intro t htocc
    rw [controlOf_setStorage] at htocc ⊢
    by_cases hts : t = s
    · subst hts
      obtain ⟨u, hu, hut, -, hroom⟩ := hb.stored t htocc
      obtain rfl : u = v := Option.some_inj.mp (hu.symm.trans hv)
      exact ⟨v', storageOf_setStorage_self _ (find?_isSome_of_occupied ho), ht ▸ hut, hp, ht ▸ hroom⟩
    · rw [storageOf_setStorage_of_ne _ _ hts]
      exact hb.stored t htocc
  · intro k hk
    rw [hall] at hk
    exact (hb.refers k hk).congr fun t _ => typeIn_setStorage ..
  · intro t htocc
    rw [controlOf_setStorage] at htocc ⊢
    rw [hall]
    exact hb.owned t htocc

/-- The count of an occupied slot changes together with the handles that own its value. -/
theorem recount (hb : w.Balanced X) (ho : (w.controlOf s).state = .occupied) (n : UInt32)
    (hr : ∀ h ∈ Y + w.nested, h.RefersIn w)
    (hne : ∀ family t, t ≠ s → owners (Y + w.nested) family t = owners (X + w.nested) family t)
    (hs : ({ w.controlOf s with count := n } : ControlBlock).OwnedBy (owners (Y + w.nested) .unique s)
      (owners (Y + w.nested) .shared s)) :
    (w.setControl s { w.controlOf s with count := n }).Balanced Y := by
  have hself : (w.setControl s { w.controlOf s with count := n }).controlOf s = { w.controlOf s with count := n } :=
    controlOf_setControl_self _ (find?_isSome_of_occupied ho)
  have hkept := state_typeIn_recount (find?_isSome_of_occupied ho) n
  have hn : (w.setControl s { w.controlOf s with count := n }).nested = w.nested :=
    nested_setControl_of_state hb.distinct rfl
  refine ⟨distinct_setControl hb.distinct s _, ?_, ?_, ?_⟩
  · intro t ht
    rw [(hkept t).1] at ht
    rw [storageOf_setControl]
    by_cases hts : t = s
    · subst hts
      rw [hself]
      exact hb.stored t ht
    · rw [controlOf_setControl_of_ne _ _ hts]
      exact hb.stored t ht
  · intro k hk
    rw [hn] at hk
    exact (hr k hk).congr fun t _ => (hkept t).2
  · intro t ht
    rw [(hkept t).1] at ht
    rw [hn]
    by_cases hts : t = s
    · subst hts
      rw [hself]
      exact hs
    · rw [controlOf_setControl_of_ne _ _ hts, hne _ t hts, hne _ t hts]
      exact hb.owned t ht

/-- The number of owners of an occupied slot is its count. -/
theorem count_eq (hb : w.Balanced X) (ho : (w.controlOf s).state = .occupied) :
    (w.controlOf s).count.toNat = owners (X + w.nested) .unique s + owners (X + w.nested) .shared s :=
  (hb.owned s ho).count

theorem count_of_unique (hb : w.Balanced X) (hh : h ∈ X + w.nested) (hf : h.family = .unique) (hs : h.slot = some s) :
    (w.controlOf s).count = 1 := by
  have ho := hb.owned s (hb.occupied hh hs)
  have hpos := owners_pos_iff.mpr ⟨h, hh, hf, hs⟩
  have hcount := ho.count
  have hsum : (w.controlOf s).count.toNat = 1 := by
    rcases ho.alone with ⟨hu, hn⟩ | ⟨hu, -⟩ <;> omega
  exact UInt32.toNat_inj.mp hsum

/-- A slot with a shared owner is counted, and has no exclusive one. -/
theorem shared_count (hb : w.Balanced X) (hh : h ∈ X + w.nested) (hf : h.family = .shared) (hs : h.slot = some s) :
    owners (X + w.nested) .unique s = 0 ∧ 0 < owners (X + w.nested) .shared s := by
  have ho := hb.owned s (hb.occupied hh hs)
  have hpos := owners_pos_iff.mpr ⟨h, hh, hf, hs⟩
  rcases ho.alone with ⟨hu, hn⟩ | ⟨hu, -⟩
  · omega
  · exact ⟨hu, hpos⟩

/-- The last owner lets go of the value, which is alive no longer; the handle it stores is on its own. -/
theorem strike (hb : w.Balanced (h ::ₘ X)) (hs : h.slot = some s) (hcount : (w.controlOf s).count = 1)
    (hv : w.storageOf s = some v) (hc : c.state ≠ .occupied) :
    (w.setControl s c).Balanced ((v.next?.toList : Multiset Handle) + X) := by
  have ho : (w.controlOf s).state = .occupied :=
    hb.occupied (by rw [Multiset.cons_add]; exact Multiset.mem_cons_self ..) hs
  have hself : (w.setControl s c).controlOf s = c := controlOf_setControl_self c (find?_isSome_of_occupied ho)
  have hocc : ∀ t, ((w.setControl s c).controlOf t).state = .occupied → t ≠ s := by
    rintro t ht rfl
    rw [hself] at ht
    exact hc ht
  have hall : (v.next?.toList : Multiset Handle) + X + (w.setControl s c).nested = X + w.nested := by
    rw [add_right_comm, nested_strike hb.distinct ho hv hc, add_comm]
  have howned := hb.owned s ho
  rw [Multiset.cons_add] at howned
  have hother : ∀ k ∈ X + w.nested, k.slot ≠ some s := fun k hk => howned.slot_ne_of_alone hs hcount hk
  refine ⟨distinct_setControl hb.distinct s c, ?_, ?_, ?_⟩
  · intro t ht
    have hne := hocc t ht
    rw [controlOf_setControl_of_ne _ _ hne] at ht ⊢
    rw [storageOf_setControl]
    exact hb.stored t ht
  · intro k hk
    rw [hall] at hk
    refine (hb.refers_of_cons k hk).congr fun t ht => ?_
    exact typeIn_setControl_of_ne _ _ fun hts => hother k hk (hts ▸ ht)
  · intro t ht
    have hne := hocc t ht
    rw [controlOf_setControl_of_ne _ _ hne] at ht ⊢
    rw [hall]
    have h' := hb.owned t ht
    rwa [Multiset.cons_add, owners_cons_of_ne hs hne, owners_cons_of_ne hs hne] at h'

theorem dropShared (hb : w.Balanced (h ::ₘ X)) (hf : h.family = .shared) (hs : h.slot = some s)
    (hcount : (w.controlOf s).count ≠ 1) :
    (w.setControl s { w.controlOf s with count := (w.controlOf s).count - 1 }).Balanced X := by
  have hmem : h ∈ h ::ₘ X + w.nested := by
    rw [Multiset.cons_add]
    exact Multiset.mem_cons_self ..
  have ho := hb.occupied hmem hs
  have hsum := hb.count_eq ho
  obtain ⟨hu, -⟩ := hb.shared_count hmem hf hs
  rw [Multiset.cons_add, owners_cons] at hu hsum
  rw [owners_cons] at hsum
  simp [hf, hs] at hu hsum
  have hne : (w.controlOf s).count.toNat ≠ 1 := fun e => hcount (UInt32.toNat_inj.mp e)
  have hsub : ((w.controlOf s).count - 1).toNat = (w.controlOf s).count.toNat - 1 := by
    rw [UInt32.toNat_sub_of_le]
    · rfl
    · rw [UInt32.le_iff_toNat_le]
      change 1 ≤ _
      omega
  refine hb.recount ho _ hb.refers_of_cons ?_ ⟨?_, .inr ⟨?_, ?_⟩⟩
  · intro family t hts
    rw [Multiset.cons_add, owners_cons_of_ne hs hts]
  · rw [owners_add, owners_add]
    dsimp only
    omega
  · rw [owners_add]
    omega
  · rw [owners_add]
    omega

theorem addShared (hb : w.Balanced X) (hh : h ∈ X + w.nested) (hf : h.family = .shared) (hs : h.slot = some s)
    (hgf : g.family = .shared) (hgs : g.slot = some s) (hgr : g.RefersIn w)
    (hcount : (w.controlOf s).count ≠ 0xffffffff) :
    (w.setControl s { w.controlOf s with count := (w.controlOf s).count + 1 }).Balanced (g ::ₘ X) := by
  have ho := hb.occupied hh hs
  have hsum := hb.count_eq ho
  obtain ⟨hu, hpos⟩ := hb.shared_count hh hf hs
  have hadd := toNat_add_one hcount
  refine hb.recount ho _ ?_ ?_ ⟨?_, .inr ⟨?_, ?_⟩⟩
  · intro k hk
    rw [Multiset.cons_add, Multiset.mem_cons] at hk
    rcases hk with rfl | hk
    · exact hgr
    · exact hb.refers k hk
  · intro family t hts
    rw [Multiset.cons_add, owners_cons_of_ne hgs hts]
  · dsimp only
    rw [hadd, hsum, Multiset.cons_add, owners_cons, owners_cons, if_neg (by simp [hgf]), if_pos ⟨hgf, hgs⟩, add_zero,
      add_assoc]
  · rw [Multiset.cons_add, owners_cons]
    simp [hgf, hu]
  · rw [Multiset.cons_add, owners_cons]
    simp [hgf, hgs]

/-- A value is published with its first owner; the handle it stores goes with it. -/
theorem build (hb : w.Balanced ((v.next?.toList : Multiset Handle) + X)) (hw : (w.controlOf s).state ≠ .occupied)
    (hx : (w.slots.find? s).isSome) (hp : v.IsProper) (hroom : (w.controlOf s).hasRoom v.type.size v.type.alignment)
    (hs : h.slot = some s) (hd : h.ref.Denotes h.elem s v.type) :
    ((w.setStorage s v).setControl s
      { w.controlOf s with state := .occupied, count := 1, type := some v.type }).Balanced (h ::ₘ X) := by
  have hb' := hb.setStorage_idle hw v
  generalize hc : ({ w.controlOf s with state := .occupied, count := 1, type := some v.type } : ControlBlock) = c
  have hco : c.state = .occupied := by rw [← hc]
  have hstorage : (w.setStorage s v).storageOf s = some v := storageOf_setStorage_self v hx
  have hx' : ((w.setStorage s v).slots.find? s).isSome := by
    rw [find?_setStorage, if_pos rfl, Option.isSome_map]
    exact hx
  generalize hu : w.setStorage s v = u at *
  have hwu : (u.controlOf s).state ≠ .occupied := by rwa [← hu, controlOf_setStorage]
  have hself : (u.setControl s c).controlOf s = c := controlOf_setControl_self c hx'
  have hall : h ::ₘ X + (u.setControl s c).nested = h ::ₘ ((v.next?.toList : Multiset Handle) + X + u.nested) := by
    have e := nested_setControl hb'.distinct s c
    rw [nestedIn_of_not_occupied hwu, nestedIn_of_occupied (by rw [hself]; exact hco), storageOf_setControl, hstorage,
      Option.bind_some] at e
    have e' : (u.setControl s c).nested = u.nested + (v.next?.toList : Multiset Handle) := by simpa using e
    rw [e', Multiset.cons_add]
    congr 1
    abel
  -- nothing owned the slot before, so the new handle is the only owner
  have hother : ∀ k ∈ (v.next?.toList : Multiset Handle) + X + u.nested, k.slot ≠ some s := fun k hk hks =>
    hwu (hb'.occupied hk hks)
  have hnone : ∀ family, owners ((v.next?.toList : Multiset Handle) + X + u.nested) family s = 0 :=
    hb'.owners_of_not_occupied hwu
  refine ⟨distinct_setControl hb'.distinct s c, ?_, ?_, ?_⟩
  · intro t ht
    by_cases hts : t = s
    · subst hts
      refine ⟨v, (storageOf_setControl ..).trans hstorage, ?_, hp, ?_⟩
      · rw [hself, ← hc]
      · rw [hself, ← hc]
        exact hroom
    · rw [controlOf_setControl_of_ne _ _ hts] at ht ⊢
      rw [storageOf_setControl]
      exact hb'.stored t ht
  · intro k hk
    rw [hall, Multiset.mem_cons] at hk
    rcases hk with rfl | hk
    · refine (Handle.refersIn_of_slot_eq_some hs).mpr ⟨v.type, ?_, hd⟩
      rw [typeIn_of_occupied (by rw [hself]; exact hco), hself, ← hc]
    · refine (hb'.refers k hk).congr fun t ht => ?_
      exact typeIn_setControl_of_ne _ _ fun hts => hother k hk (hts ▸ ht)
  · intro t ht
    rw [hall]
    by_cases hts : t = s
    · subst hts
      rw [owners_cons, owners_cons, hself, hnone, hnone, ← hc]
      cases hf : h.family with
      | unique => exact ⟨by simp [hs], .inl (by simp [hs])⟩
      | shared => exact ⟨by simp [hs], .inr (by simp [hs])⟩
    · rw [owners_cons_of_ne hs hts, owners_cons_of_ne hs hts]
      rw [controlOf_setControl_of_ne _ _ hts] at ht ⊢
      exact hb'.owned t ht

end World.Balanced

end SlotHandles
