import SlotHandles.Proofs.Counterparts

/-!
# Mirrored worlds

`w.Mirrors E u` says that the world `u` of shared handles looks like the world `w` of exclusive ones: slots are in the same
states and hold counterparts, live handles are counterparts, and the same was announced.  Every live value of `u` has one
owner.  The worlds may differ in the handles at the places `E`: in the middle of an assignment the families have taken
different handles from their places, since they do not go about it in the same order.

Worlds that change in one slot each go on to mirror each other if they do so in that slot (`Mirrors.change`).  A cascade
runs through both worlds in step (`CascadesMirror`), as long as it tears down no value that stores one of the handles in
which they differ.
-/

namespace SlotHandles

open World

variable {w w' u u' : World} {s t : SlotId} {p q : Holder} {h g : Handle} {v : Value} {D E : List Holder}
  {c d : ControlBlock} {X M : Multiset Handle}

namespace World

/-- The second world has the counterparts of the first, but for the handles at the given places. -/
structure Mirrors (w : World) (E : List Holder) (u : World) : Prop where
  keys : u.slots.map Prod.fst = w.slots.map Prod.fst
  frames : ∀ s, (w.controlOf s).Frames (u.controlOf s)
  type : ∀ s, u.typeIn s = (w.typeIn s).map .counterpart
  count : ∀ s, (u.controlOf s).state = .occupied → (u.controlOf s).count = 1
  stored : ∀ s, (w.controlOf s).state = .occupied →
    ∃ v g, w.storageOf s = some v ∧ u.storageOf s = some (v.counterpart.withNext g)
  live : ∀ p, p ∉ E → u.live? p = (w.live? p).map .counterpart
  exclusive : ∀ p h, w.live? p = some h → h.family = .unique
  trace : EventsMatch w.trace u.trace

/-! ### Handles that are written -/

theorem keys_setHandle (w : World) (p : Holder) (g : Handle) :
    (w.setHandle p g).slots.map Prod.fst = w.slots.map Prod.fst := by
  cases p with
  | named n | result n => rfl
  | inside s =>
    unfold setHandle
    dsimp only
    split
    · exact keys_setStorage ..
    · rfl
  | within n =>
    unfold setHandle
    dsimp only
    split <;> rfl

/-- If there is a live handle at a place after one was put there, it is that one. -/
theorem eq_of_live?_setHandle (hl : (w.setHandle p g).live? p = some h) : h = g := by
  cases p with
  | named n | result n => exact Option.some_inj.mp (hl.symm.trans (Table.find?_put_self ..))
  | inside s =>
    cases hv : w.storageOf s with
    | none =>
      have hsame : w.setHandle (.inside s) g = w := by
        unfold setHandle
        dsimp only
        rw [hv]
      obtain ⟨-, v, hv', -⟩ := nestedIn_eq_some_iff.mp hl
      rw [hsame, hv] at hv'
      cases hv'
    | some v =>
      rw [setHandle_inside hv] at hl
      obtain ⟨-, v', hv', hn⟩ := nestedIn_eq_some_iff.mp hl
      rw [storageOf_setStorage_self _ (storageOf_isSome (by rw [hv]; rfl))] at hv'
      cases hv'
      cases v <;> simp_all [Value.next?, Value.withNext]
  | within n =>
    obtain ⟨v', hv', hn⟩ := Option.bind_eq_some_iff.mp hl
    cases hv : w.values.find? n with
    | none =>
      have hsame : w.setHandle (.within n) g = w := by
        unfold setHandle
        dsimp only
        rw [hv]
      rw [hsame, hv] at hv'
      cases hv'
    | some v =>
      rw [setHandle_within hv] at hv'
      dsimp only at hv'
      rw [Table.find?_put_self] at hv'
      cases hv'
      cases v <;> simp_all [Value.next?, Value.withNext]

theorem live?_removeHeld (hp : p.isOwn) (w : World) (q : Holder) :
    ({ w with held := w.held.remove p } : World).live? q = if q = p then none else w.live? q := by
  by_cases hqp : q = p
  · subst hqp
    rw [if_pos rfl, live?_own hp]
    exact Table.find?_remove_self ..
  · rw [if_neg hqp]
    cases q with
    | named n | result n => exact Table.find?_remove_of_ne _ hqp
    | inside s | within n => rfl

/-! ### Changes in one slot -/

/-- The second world differs from the first in one slot, and in what was announced, at most. -/
structure ChangesOnly (w : World) (s : SlotId) (w' : World) : Prop where
  keys : w'.slots.map Prod.fst = w.slots.map Prod.fst
  control : ∀ t, t ≠ s → w'.controlOf t = w.controlOf t
  storage : ∀ t, t ≠ s → w'.storageOf t = w.storageOf t
  held : w'.held = w.held
  values : w'.values = w.values

namespace ChangesOnly

theorem trans (h : w.ChangesOnly s u) (h' : u.ChangesOnly s u') : w.ChangesOnly s u' where
  keys := h'.keys.trans h.keys
  control t ht := (h'.control t ht).trans (h.control t ht)
  storage t ht := (h'.storage t ht).trans (h.storage t ht)
  held := h'.held.trans h.held
  values := h'.values.trans h.values

theorem setControl (w : World) (s : SlotId) (c : ControlBlock) : w.ChangesOnly s (w.setControl s c) :=
  ⟨keys_setControl .., fun _ ht => controlOf_setControl_of_ne _ _ ht, fun _ _ => storageOf_setControl .., rfl, rfl⟩

theorem setStorage (w : World) (s : SlotId) (v : Value) : w.ChangesOnly s (w.setStorage s v) :=
  ⟨keys_setStorage .., fun _ _ => controlOf_setStorage .., fun _ ht => storageOf_setStorage_of_ne _ _ ht, rfl, rfl⟩

theorem log (w : World) (s : SlotId) (es : List Event) : w.ChangesOnly s (w.log es) :=
  ⟨rfl, fun _ _ => rfl, fun _ _ => rfl, rfl, rfl⟩

theorem built (w : World) (s : SlotId) (v : Value) (es : List Event) : w.ChangesOnly s (w.built s v es) := by
  have hfind : ∀ t, t ≠ s → (w.built s v es).slots.find? t = w.slots.find? t := fun t ht =>
    (find?_built w s t v es).trans (if_neg ht)
  exact ⟨keys_built .., fun t ht => controlOf_congr (hfind t ht), fun t ht => storageOf_congr (hfind t ht), rfl, rfl⟩

theorem parted {n : UInt32} (h : w.Parted s v n w') : w.ChangesOnly s w' := by
  obtain ⟨x, hx, rfl⟩ := h
  have hclaimed : w.ChangesOnly s (w.claimed s n) := setControl w s _
  rcases hx with rfl | rfl
  · exact hclaimed.trans (log _ s _)
  · exact (hclaimed.trans (setStorage _ s v.remains)).trans (log _ s _)

theorem live?_of_ne (h : w.ChangesOnly s w') (hp : p ≠ .inside s) : w'.live? p = w.live? p := by
  refine live?_congr h.held h.values ?_
  rintro t rfl
  have hts : t ≠ s := fun e => hp (e ▸ rfl)
  exact ⟨congrArg _ (h.control t hts), h.storage t hts⟩

theorem typeIn_of_ne (h : w.ChangesOnly s w') (hts : t ≠ s) : w'.typeIn t = w.typeIn t := typeIn_congr (h.control t hts)

end ChangesOnly

/-- Each slot counts by its key. -/
theorem liveSlots_eq_countP (hd : w.slots.Distinct) :
    w.liveSlots = (w.slots.map Prod.fst).countP fun s => (w.controlOf s).state = .occupied := by
  unfold liveSlots
  rw [List.countP_map]
  apply List.countP_congr
  intro e he
  have hfind : w.slots.find? e.1 = some e.2 := (Table.find?_eq_some_iff_mem hd).mpr he
  have hcontrol : w.controlOf e.1 = e.2.control := by
    unfold controlOf
    rw [hfind]
  rw [Function.comp_apply, hcontrol]

end World

/-- The action takes the second world to one that mirrors the first, and leaves the places at which they differ alone. -/
def World.MirroredAfter (w : World) (E : List Holder) (a : Act Unit) (u : World) : Prop :=
  ∃ u', a u = .ok () u' ∧ w.Mirrors E u' ∧ ∀ p ∈ E, u'.live? p = u.live? p

/-- Cascades of the given depth run through both worlds in step: an exclusive handle and its shared counterpart are let go
of, and no value that stores one of the handles in which the worlds differ is torn down. -/
def CascadesMirror (E : List Holder) (depth : Nat) : Prop :=
  ∀ ⦃w w' u : World⦄ ⦃h : Handle⦄ ⦃X : Multiset Handle⦄, w.Mirrors E u → w.Balanced (h ::ₘ X) → h.family = .unique →
    w.liveSlots ≤ depth → releaseWith (tearDownWithin depth) h w = .ok () w' → (∀ p ∈ E, ¬ w.TornAt w' p) →
    w'.MirroredAfter E (releaseWith (tearDownWithin depth) h.counterpart) u

namespace World.Mirrors

/-- A handle is written in the first world. -/
theorem setHandle_left (h : w.Mirrors E u) (p : Holder) (hg : g.family = .unique) :
    (w.setHandle p g).Mirrors (p :: E) u where
  keys := h.keys.trans (keys_setHandle w p g).symm
  frames s := by
    rw [controlOf_setHandle]
    exact h.frames s
  type s := by
    rw [typeIn_congr (controlOf_setHandle w p g s)]
    exact h.type s
  count := h.count
  stored s hs := by
    rw [controlOf_setHandle] at hs
    obtain ⟨v, k, hv, hu⟩ := h.stored s hs
    rcases storageOf_setHandle hv p g with hv' | hv'
    · exact ⟨v, k, hv', hu⟩
    · refine ⟨v.withNext g, k, hv', ?_⟩
      rw [Value.counterpart_withNext, Value.withNext_withNext]
      exact hu
  live q hq := by
    obtain ⟨hqp, hqE⟩ : q ≠ p ∧ q ∉ E := by simpa using hq
    rw [live?_setHandle_of_ne hqp]
    exact h.live q hqE
  exclusive q k hk := by
    by_cases hqp : q = p
    · subst hqp
      rw [eq_of_live?_setHandle hk]
      exact hg
    · rw [live?_setHandle_of_ne hqp] at hk
      exact h.exclusive q k hk
  trace := by
    rw [trace_setHandle]
    exact h.trace

/-- A handle is written in the second world. -/
theorem setHandle_right (h : w.Mirrors E u) (p : Holder) (g : Handle) : w.Mirrors (p :: E) (u.setHandle p g) where
  keys := (keys_setHandle u p g).trans h.keys
  frames s := by
    rw [controlOf_setHandle]
    exact h.frames s
  type s := by
    rw [typeIn_congr (controlOf_setHandle u p g s)]
    exact h.type s
  count s hs := by
    rw [controlOf_setHandle] at hs ⊢
    exact h.count s hs
  stored s hs := by
    obtain ⟨v, k, hv, hu⟩ := h.stored s hs
    rcases storageOf_setHandle hu p g with hu' | hu'
    · exact ⟨v, k, hv, hu'⟩
    · refine ⟨v, g, hv, ?_⟩
      rw [hu', Value.withNext_withNext]
  live q hq := by
    obtain ⟨hqp, hqE⟩ : q ≠ p ∧ q ∉ E := by simpa using hq
    rw [live?_setHandle_of_ne hqp]
    exact h.live q hqE
  exclusive := h.exclusive
  trace := by
    rw [trace_setHandle]
    exact h.trace

theorem mono (h : w.Mirrors E u) (hE : ∀ p ∈ E, p ∈ D) : w.Mirrors D u :=
  { h with live := fun p hp => h.live p fun hp' => hp (hE p hp') }

/-- A place at which the worlds agree is no exception. -/
theorem narrow (h : w.Mirrors (p :: E) u) (hp : u.live? p = (w.live? p).map .counterpart) : w.Mirrors E u := by
  refine { h with live := fun q hq => ?_ }
  by_cases hqp : q = p
  · subst hqp
    exact hp
  · exact h.live q (by simp [hqp, hq])

theorem setHandle (h : w.Mirrors E u) (hg : g.family = .unique) (hw : (w.setHandle p g).live? p = some g)
    (hu : (u.setHandle p g.counterpart).live? p = some g.counterpart) :
    (w.setHandle p g).Mirrors E (u.setHandle p g.counterpart) := by
  have hboth := (h.setHandle_left p hg).setHandle_right p g.counterpart
  have hagree : (u.setHandle p g.counterpart).live? p = ((w.setHandle p g).live? p).map .counterpart := by
    rw [hu, hw]
    rfl
  exact (hboth.mono (D := p :: E) (by simp)).narrow hagree

/-- The handles at a place of the program's own are written. -/
theorem setHandle_own (h : w.Mirrors E u) (hp : p.isOwn) (hg : g.family = .unique) :
    (w.setHandle p g).Mirrors E (u.setHandle p g.counterpart) :=
  h.setHandle hg (live?_setHandle_own hp w g) (live?_setHandle_own hp u g.counterpart)

theorem live_some (hm : w.Mirrors E u) (hp : p ∉ E) (hl : w.live? p = some h) : u.live? p = some h.counterpart := by
  rw [hm.live p hp, hl]
  rfl

/-- Where the worlds differ nowhere, every live handle has its counterpart. -/
theorem live_counterpart (hm : w.Mirrors [] u) (hl : w.live? p = some h) : u.live? p = some h.counterpart :=
  hm.live_some List.not_mem_nil hl

/-- Live handles at a place are written. -/
theorem setHandle_live (hm : w.Mirrors E u) (hp : p ∉ E) (hl : w.live? p = some h) (hg : g.family = .unique) :
    (w.setHandle p g).Mirrors E (u.setHandle p g.counterpart) :=
  hm.setHandle hg (live?_setHandle_self hl g) (live?_setHandle_self (hm.live_some hp hl) g.counterpart)

/-- The program gives up the handle at a place of its own. -/
theorem removeHeld (h : w.Mirrors E u) (hp : p.isOwn) :
    ({ w with held := w.held.remove p } : World).Mirrors E { u with held := u.held.remove p } := by
  refine ⟨h.keys, h.frames, h.type, h.count, h.stored, ?_, ?_, h.trace⟩
  · intro q hq
    rw [live?_removeHeld hp, live?_removeHeld hp]
    split
    · rfl
    · exact h.live q hq
  · intro q k hk
    rw [live?_removeHeld hp] at hk
    split at hk
    · cases hk
    · exact h.exclusive q k hk

theorem log (h : w.Mirrors E u) {es es' : List Event} (hes : EventsMatch es es') : (w.log es).Mirrors E (u.log es') :=
  ⟨h.keys, h.frames, h.type, h.count, h.stored, h.live, h.exclusive, h.trace.append hes⟩

/-! ### Slots that hold no value -/

theorem isSome_find? (h : w.Mirrors E u) (s : SlotId) : (u.slots.find? s).isSome = (w.slots.find? s).isSome :=
  isSome_find?_of_keys h.keys s

/-- One slot is changed in each world. -/
theorem change (h : w.Mirrors E u) (hw : w.ChangesOnly s w') (hu : u.ChangesOnly s u')
    (hframes : (w'.controlOf s).Frames (u'.controlOf s)) (htype : u'.typeIn s = (w'.typeIn s).map .counterpart)
    (hcount : (u'.controlOf s).state = .occupied → (u'.controlOf s).count = 1)
    (hstored : (w'.controlOf s).state = .occupied →
      ∃ v g, w'.storageOf s = some v ∧ u'.storageOf s = some (v.counterpart.withNext g))
    (hinside : u'.nestedIn s = (w'.nestedIn s).map .counterpart)
    (hexclusive : ∀ g, w'.nestedIn s = some g → g.family = .unique) (htrace : EventsMatch w'.trace u'.trace) :
    w'.Mirrors E u' where
  keys := hu.keys.trans (h.keys.trans hw.keys.symm)
  frames t := by
    by_cases hts : t = s
    · exact hts ▸ hframes
    · rw [hw.control t hts, hu.control t hts]
      exact h.frames t
  type t := by
    by_cases hts : t = s
    · exact hts ▸ htype
    · rw [hw.typeIn_of_ne hts, hu.typeIn_of_ne hts]
      exact h.type t
  count t ho := by
    by_cases hts : t = s
    · subst hts
      exact hcount ho
    · rw [hu.control t hts] at ho ⊢
      exact h.count t ho
  stored t ho := by
    by_cases hts : t = s
    · subst hts
      exact hstored ho
    · rw [hw.control t hts] at ho
      rw [hw.storage t hts, hu.storage t hts]
      exact h.stored t ho
  live q hq := by
    by_cases hqs : q = .inside s
    · exact hqs ▸ hinside
    · rw [hw.live?_of_ne hqs, hu.live?_of_ne hqs]
      exact h.live q hq
  exclusive q k hk := by
    by_cases hqs : q = .inside s
    · subst hqs
      exact hexclusive k hk
    · rw [hw.live?_of_ne hqs] at hk
      exact h.exclusive q k hk
  trace := htrace

/-- What lies in the storage of a slot without a value does not matter. -/
theorem change_idle (h : w.Mirrors E u) (hw : w.ChangesOnly s w') (hu : u.ChangesOnly s u')
    (hframes : (w'.controlOf s).Frames (u'.controlOf s)) (hidle : (w'.controlOf s).state ≠ .occupied)
    (htrace : EventsMatch w'.trace u'.trace) : w'.Mirrors E u' := by
  have hidle' : (u'.controlOf s).state ≠ .occupied := hframes.state ▸ hidle
  refine h.change hw hu hframes ?_ (fun ho => absurd ho hidle') (fun ho => absurd ho hidle) ?_ ?_ htrace
  · rw [typeIn_of_not_occupied hidle, typeIn_of_not_occupied hidle']
    rfl
  · rw [nestedIn_of_not_occupied hidle, nestedIn_of_not_occupied hidle']
    rfl
  · intro g hg
    rw [nestedIn_of_not_occupied hidle] at hg
    cases hg

/-- A slot gets a block without a value in both worlds. -/
theorem setControl (h : w.Mirrors E u) (hcd : c.Frames d) (hc : c.state ≠ .occupied) :
    (w.setControl s c).Mirrors E (u.setControl s d) := by
  refine h.change_idle (.setControl w s c) (.setControl u s d) ?_ (state_setControl_ne_occupied w s hc) h.trace
  by_cases hx : (w.slots.find? s).isSome
  · rw [controlOf_setControl_self _ hx, controlOf_setControl_self _ ((h.isSome_find? s).trans hx)]
    exact hcd
  · have hx' : ¬ (u.slots.find? s).isSome := by rwa [h.isSome_find? s]
    unfold controlOf
    rw [find?_setControl, find?_setControl, if_pos rfl, if_pos rfl, Option.not_isSome_iff_eq_none.mp hx,
      Option.not_isSome_iff_eq_none.mp hx']
    exact .refl _

/-- In both worlds a value has announced its end. -/
theorem parted {m n : UInt32} {w₁ u₁ : World} (h : w.Mirrors E u) (hx : (w.slots.find? s).isSome)
    (hw : w.Parted s v m w₁) (hu : u.Parted s v.counterpart n u₁) : w₁.Mirrors E u₁ := by
  have hcontrol := hw.controlOf hx
  have hcontrol' := hu.controlOf ((h.isSome_find? s).trans hx)
  refine h.change_idle (.parted hw) (.parted hu) ?_ (by simp [hcontrol]) ?_
  · rw [hcontrol, hcontrol']
    exact ⟨rfl, (h.frames s).address, (h.frames s).capacity⟩
  · rw [hw.trace, hu.trace, Value.type_counterpart]
    exact h.trace.append ((Value.eventsMatch_lastWords v _ _).cons rfl)

/-! ### Cascades -/

/-- The value of a slot has its counterpart in the other world, unless the worlds differ in the handle it stores. -/
theorem storageOf (h : w.Mirrors E u) (hs : .inside s ∉ E) (ho : (w.controlOf s).state = .occupied)
    (hv : w.storageOf s = some v) : u.storageOf s = some v.counterpart := by
  obtain ⟨v', g, hv', hu⟩ := h.stored s ho
  obtain rfl : v' = v := Option.some_inj.mp (hv'.symm.trans hv)
  have hlive : u.nestedIn s = (w.nestedIn s).map .counterpart := h.live (.inside s) hs
  rw [nestedIn_of_occupied ((h.frames s).state ▸ ho), nestedIn_of_occupied ho, hu, hv, Option.bind_some,
    Option.bind_some] at hlive
  rw [hu]
  cases v' with
  | node id next | snode id next =>
    have hg : some g = some next.counterpart := hlive
    cases hg
    rfl
  | _ => rfl

theorem releaseWith_of_empty {td td' : SlotId → Act Unit} (hm : w.Mirrors E u) (hs : h.slot = none)
    (hrun : SlotHandles.releaseWith td h w = .ok () w') :
    w'.MirroredAfter E (SlotHandles.releaseWith td' h.counterpart) u := by
  rw [SlotHandles.releaseWith_of_empty hs] at hrun
  cases hrun
  exact ⟨u, SlotHandles.releaseWith_of_empty hs, hm, fun _ _ => rfl⟩

/-- Letting go of what a value stores, given that cascades of this depth run in step. -/
theorem releaseNextWith {depth : Nat} (ih : CascadesMirror E depth) (hm : w.Mirrors E u)
    (hb : w.Balanced ((v.next?.toList : Multiset Handle) + X)) (hf : ∀ g, v.next? = some g → g.family = .unique)
    (hlive : w.liveSlots ≤ depth) (hrun : SlotHandles.releaseNextWith (tearDownWithin depth) v w = .ok () w')
    (hE : ∀ p ∈ E, ¬ w.TornAt w' p) :
    w'.MirroredAfter E (SlotHandles.releaseNextWith (tearDownWithin depth) v.counterpart) u := by
  unfold MirroredAfter
  unfold SlotHandles.releaseNextWith at hrun ⊢
  rw [Value.next?_counterpart]
  cases hn : v.next? with
  | none =>
    rw [hn] at hrun
    cases hrun
    exact ⟨u, rfl, hm, fun _ _ => rfl⟩
  | some g =>
    rw [hn] at hrun hb
    exact ih hm (X := X) (by simpa using hb) (hf g hn) hlive hrun hE

/-- The owner of a slot is let go of in both worlds: they mirror each other when the value has announced its end, and
again when what its handle kept alive is gone. -/
theorem releaseWith_succ {depth : Nat} (ih : CascadesMirror E depth) (hm : w.Mirrors E u) (hb : w.Balanced (h ::ₘ X))
    (hf : h.family = .unique) (hs : h.slot = some s) (hlive : w.liveSlots ≤ depth + 1)
    (hrun : SlotHandles.releaseWith (tearDownWithin (depth + 1)) h w = .ok () w') (hE : ∀ p ∈ E, ¬ w.TornAt w' p) :
    w'.MirroredAfter E (SlotHandles.releaseWith (tearDownWithin (depth + 1)) h.counterpart) u := by
  have hmem : h ∈ h ::ₘ X + w.nested := by simp
  have ho := hb.occupied hmem hs
  have hcount := hb.count_of_unique hmem hf hs
  obtain ⟨v, hv, htype, hnext, hp⟩ := hb.value ho
  have ht : (w.controlOf s).type = some v.type := by rwa [typeIn_of_occupied ho] at htype
  obtain ⟨w₁, hparted, hleft⟩ := releaseWith_last depth hb.distinct hs ho ht hcount hv hp.passive
  obtain ⟨hunder, hb₁, hl₁⟩ : w.Underway s v.type w₁ ∧ w₁.Balanced ((v.next?.toList : Multiset Handle) + X) ∧
      w₁.liveSlots + 1 = w.liveSlots :=
    hparted.starts (m := none) (by simp) hb.distinct ho fun c hc => hb.strike hs hcount hv hc
  have hlive₁ : w₁.liveSlots ≤ depth := by omega
  -- in the first world the rest of the cascade comes to an end, which is the end given
  obtain ⟨w₂, hrun₂, -, hsheds⟩ := releaseNextWith_ok hb₁ hlive₁
  rw [hleft, bind_of_ok hrun₂, onControl_ok (ControlBlock.vacate_apply _)] at hrun
  cases hrun
  obtain ⟨es, -, htrace⟩ := hunder.trace
  have hinside : .inside s ∉ E := by
    obtain ⟨more, hmore⟩ := hsheds.trace
    refine fun hin => hE _ hin ⟨s, rfl, v.type, .destructed s v.type :: es ++ more, ?_, by simp⟩
    change w₂.trace = _
    rw [← hmore, htrace, List.append_assoc]
  -- the counterpart in the second world has its one owner too
  have hou : (u.controlOf s).state = .occupied := (hm.frames s).state ▸ ho
  have htu : (u.controlOf s).type = some v.counterpart.type := by
    rw [← typeIn_of_occupied hou, hm.type, htype, Value.type_counterpart]
    rfl
  obtain ⟨u₁, hparted', hright⟩ := releaseWith_last (h := h.counterpart) depth
    (distinct_of_keys hm.keys hb.distinct) hs hou htu (hm.count s hou) (hm.storageOf hinside ho hv)
    ((Value.isPassive_counterpart v).trans hp.passive)
  obtain ⟨u₂, hrun₂', hm₂, hkept⟩ := (hm.parted (find?_isSome_of_occupied ho) hparted hparted').releaseNextWith ih hb₁
    (fun g hg => hm.exclusive (.inside s) g (hnext.trans hg)) hlive₁ hrun₂
    fun p hp htorn => hE p hp (htorn.widen ⟨_, htrace.symm⟩ List.prefix_rfl)
  refine ⟨u₂.setControl s { u₂.controlOf s with state := .empty }, ?_, ?_, ?_⟩
  · rw [hright, bind_of_ok hrun₂']
    exact onControl_ok (ControlBlock.vacate_apply _)
  · exact hm₂.setControl ⟨rfl, (hm₂.frames s).address, (hm₂.frames s).capacity⟩ (by simp)
  · intro p hp
    have hps : p ≠ .inside s := fun e => hinside (e ▸ hp)
    rw [(ChangesOnly.setControl u₂ s _).live?_of_ne hps, hkept p hp, (ChangesOnly.parted hparted').live?_of_ne hps]

theorem cascadesMirror (E : List Holder) (depth : Nat) : CascadesMirror E depth := by
  induction depth with
  | zero =>
    intro w w' u h X hm hb hf hlive hrun hE
    cases hs : h.slot with
    | none => exact hm.releaseWith_of_empty hs hrun
    | some s =>
      have hpos := liveSlots_pos (hb.occupied (h := h) (by simp) hs)
      omega
  | succ depth ih =>
    intro w w' u h X hm hb hf hlive hrun hE
    cases hs : h.slot with
    | none => exact hm.releaseWith_of_empty hs hrun
    | some s => exact hm.releaseWith_succ ih hb hf hs hlive hrun hE

theorem liveSlots_eq (hm : w.Mirrors E u) (hd : w.slots.Distinct) : u.liveSlots = w.liveSlots := by
  rw [liveSlots_eq_countP hd, liveSlots_eq_countP (distinct_of_keys hm.keys hd), hm.keys]
  apply List.countP_congr
  intro s _
  rw [(hm.frames s).state]

/-- An exclusive handle and its shared counterpart are let go of, and the places at which the worlds differ are left
alone. -/
theorem release (hm : w.Mirrors E u) (hw : w.Sound (h ::ₘ M)) (hf : h.family = .unique)
    (hrun : SlotHandles.release h w = .ok () w') (hE : ∀ p ∈ E, ¬ w.TornAt w' p) :
    w'.MirroredAfter E (SlotHandles.release h.counterpart) u := by
  have hd := hw.balanced.distinct
  have hb := hw.balanced
  rw [Multiset.cons_add] at hb
  rw [release_apply hd] at hrun
  unfold MirroredAfter
  rw [release_apply (distinct_of_keys hm.keys hd), hm.liveSlots_eq hd]
  exact cascadesMirror E w.liveSlots hm hb hf le_rfl hrun hE

/-! ### Values that are built -/

theorem built (hm : w.Mirrors E u) (hx : (w.slots.find? s).isSome) (hv : ∀ g, v.next? = some g → g.family = .unique)
    {es es' : List Event} (hes : EventsMatch es es') : (w.built s v es).Mirrors E (u.built s v.counterpart es') := by
  have hx' : (u.slots.find? s).isSome := (hm.isSome_find? s).trans hx
  have hcontrol := controlOf_built hx v es
  have hcontrol' := controlOf_built hx' v.counterpart es'
  have hinside : (w.built s v es).nestedIn s = v.next? := nestedIn_built hx v es
  refine hm.change (.built w s v es) (.built u s v.counterpart es') ?_ ?_ ?_ ?_ ?_ ?_ ?_
  · rw [hcontrol, hcontrol']
    exact ⟨rfl, (hm.frames s).address, (hm.frames s).capacity⟩
  · rw [typeIn_built hx, typeIn_built hx', Value.type_counterpart]
    rfl
  · intro _
    rw [hcontrol']
  · intro _
    refine ⟨v, (v.counterpart.next?).getD (.empty .shared (.ofKind .snode)), storageOf_built hx v es, ?_⟩
    rw [storageOf_built hx']
    cases v <;> rfl
  · rw [hinside, nestedIn_built hx', Value.next?_counterpart]
  · rw [hinside]
    exact hv
  · have hbuilt : EventsMatch [.constructed s v.type] [.constructed s v.counterpart.type] := by
      rw [Value.type_counterpart]
      rfl
    exact (hm.trace.append hes).append hbuilt

end World.Mirrors

end SlotHandles
