import SlotHandles.Proofs.Separation
import SlotHandles.Proofs.Stages

/-!
# A vacated slot is as good as new

An empty slot remembers things: the count of its last owner stays, and so does what its last value left in the storage.
Programs cannot find out.  Of a slot that holds no value only the state and the storage's place and size are ever looked at,
and a construction writes all the rest before there is a handle to read it (`World.Alike.make`).

So a program whose values do not look at control blocks takes the same course whether an empty slot was used before or
is replaced by a fresh one, step by step (`renewed_slot_is_unnoticed`).
-/

namespace SlotHandles

open World

variable {slots : Table SlotId Slot} {w w' u u' : World} {st : HandleStep} {s t : SlotId} {p : Holder} {o : Origin}
  {M : Multiset Handle} {c d : ControlBlock}

/-! ### Worlds that look alike -/

/-- The blocks are in the same state, and their storage is at the same place and of the same size. -/
structure ControlBlock.Frames (c d : ControlBlock) : Prop where
  state : c.state = d.state
  address : c.address = d.address
  capacity : c.capacity = d.capacity

namespace World

/-- The worlds differ in slots only that hold no value, and there in the count, the type and what was left in the
storage. -/
structure Alike (w u : World) : Prop where
  keys : w.slots.map Prod.fst = u.slots.map Prod.fst
  slots : ∀ s, w.slots.find? s = u.slots.find? s ∨
    (w.controlOf s).state ≠ .occupied ∧ (w.controlOf s).Frames (u.controlOf s)
  held : ∀ p, w.held.find? p = u.held.find? p
  values : ∀ name, w.values.find? name = u.values.find? name
  bag : w.bag = u.bag
  trace : w.trace = u.trace

/-- What a program can see is the same: states and types of slots, live handles, live values and those that were taken
out, and what was announced. -/
structure LooksLike (w u : World) : Prop where
  state : ∀ s, (w.controlOf s).state = (u.controlOf s).state
  type : ∀ s, w.typeIn s = u.typeIn s
  live : ∀ p, w.live? p = u.live? p
  stored : ∀ s, (w.controlOf s).state = .occupied → w.storageOf s = u.storageOf s
  values : ∀ name, w.values.find? name = u.values.find? name
  trace : w.trace = u.trace

/-- Every live handle has the same use count. -/
def CountsLike (w u : World) : Prop := ∀ p h, w.live? p = some h → w.useCount h = u.useCount h

/-- A slot gives way to a fresh one of the same storage. -/
def renewed (w : World) (s : SlotId) : World :=
  { w with slots := w.slots.adjust s fun slot => ⟨.fresh slot.control.address slot.control.capacity, none⟩ }

end World

/-- The stages end in the same way, in worlds that look the same. -/
structure Stage.Same (g g' : Stage) : Prop where
  outcome : g.outcome = g'.outcome
  world : g.world.LooksLike g'.world
  counts : g.goesOn → g.world.CountsLike g'.world

/-- No value that the step makes looks at control blocks. -/
def HandleStep.IsBlind : HandleStep → Prop
  | .make _ _ _ _ o _ => o.type ≠ .single .probe
  | _ => True

theorem ControlBlock.Frames.refl (c : ControlBlock) : c.Frames c := ⟨rfl, rfl, rfl⟩

namespace World

theorem controlOf_congr (h : w.slots.find? s = u.slots.find? s) : w.controlOf s = u.controlOf s := by
  unfold controlOf
  rw [h]

theorem storageOf_congr (h : w.slots.find? s = u.slots.find? s) : w.storageOf s = u.storageOf s := by
  unfold storageOf
  rw [h]

namespace Alike

theorem frames (h : w.Alike u) (s : SlotId) : (w.controlOf s).Frames (u.controlOf s) := by
  rcases h.slots s with he | ⟨-, hf⟩
  · rw [controlOf_congr he]
    exact .refl _
  · exact hf

theorem symm (h : w.Alike u) : u.Alike w := by
  refine ⟨h.keys.symm, ?_, fun p => (h.held p).symm, fun n => (h.values n).symm, h.bag.symm, h.trace.symm⟩
  intro s
  rcases h.slots s with he | ⟨ho, hf⟩
  · exact .inl he.symm
  · exact .inr ⟨hf.state ▸ ho, hf.state.symm, hf.address.symm, hf.capacity.symm⟩

theorem find?_eq (h : w.Alike u) (ho : (w.controlOf s).state = .occupied) : w.slots.find? s = u.slots.find? s := by
  rcases h.slots s with he | ⟨hne, -⟩
  · exact he
  · exact absurd ho hne

theorem live? (h : w.Alike u) (p : Holder) : w.live? p = u.live? p := by
  cases p with
  | named n | result n => exact h.held _
  | inside s =>
    unfold World.live? nestedIn
    dsimp only
    by_cases ho : (w.controlOf s).state = .occupied
    · rw [controlOf_congr (h.find?_eq ho), storageOf_congr (h.find?_eq ho)]
    · have ho' : (u.controlOf s).state ≠ .occupied := (h.frames s).state ▸ ho
      rw [if_neg ho, if_neg ho']
  | within n =>
    unfold World.live? World.handle?
    dsimp only
    rw [h.values n]

theorem looksLike (h : w.Alike u) : w.LooksLike u := by
  refine ⟨fun s => (h.frames s).state, ?_, h.live?, fun s ho => storageOf_congr (h.find?_eq ho), h.values, h.trace⟩
  intro s
  by_cases ho : (w.controlOf s).state = .occupied
  · exact typeIn_congr (controlOf_congr (h.find?_eq ho))
  · have ho' : (u.controlOf s).state ≠ .occupied := (h.frames s).state ▸ ho
    rw [typeIn_of_not_occupied ho, typeIn_of_not_occupied ho']

theorem countsLike (h : w.Alike u) (hw : w.Sound M) : w.CountsLike u := by
  intro p g hl
  unfold useCount
  cases hs : g.slot with
  | none => rfl
  | some s =>
    have ho := (hw.refersIn_of_live hl).occupied hs
    unfold countOf
    dsimp only
    rw [controlOf_congr (h.find?_eq ho)]

theorem admissible (h : w.Alike u) (ha : st.Admissible w) : st.Admissible u :=
  ha.congr (fun p _ => (h.live? p).symm) (fun n _ => (h.values n).symm) fun s _ => isSome_find?_of_keys h.keys.symm s

end Alike

theorem alike_renewed (he : (w.controlOf s).state = .empty) : w.Alike (w.renewed s) := by
  have hkeys : (w.renewed s).slots.map Prod.fst = w.slots.map Prod.fst := by
    unfold renewed
    dsimp only
    exact Table.map_fst_adjust w.slots s _
  refine ⟨hkeys.symm, ?_, fun _ => rfl, fun _ => rfl, rfl, rfl⟩
  intro t
  by_cases hts : t = s
  · subst hts
    cases hx : w.slots.find? t with
    | none =>
      left
      unfold renewed
      dsimp only
      rw [Table.find?_adjust_self, hx]
      rfl
    | some slot =>
      right
      have hnew : (w.renewed t).controlOf t = .fresh slot.control.address slot.control.capacity := by
        unfold controlOf renewed
        dsimp only
        rw [Table.find?_adjust_self, hx]
        rfl
      have hold : w.controlOf t = slot.control := by
        unfold controlOf
        rw [hx]
      rw [hnew, hold]
      rw [hold] at he
      exact ⟨by simp [he], he, rfl, rfl⟩
  · left
    unfold renewed
    dsimp only
    rw [Table.find?_adjust_of_ne _ _ hts]

/-! ### Steps that make nothing -/

/-- A step that makes nothing touches slots only that hold a value, and these are the same. -/
theorem Alike.other (h : w.Alike u) (hw : w.Sound M) (ha : st.Admissible w) (hm : st.makesIn? = none) :
    st.outcome w = st.outcome u ∧ (st.after w).Alike (st.after u) := by
  have hd := hw.balanced.distinct
  have hd' : u.slots.Distinct := distinct_of_keys h.keys.symm hd
  have hcoincide : w.Coincide (st.footprint w) u :=
    ⟨fun s hs => h.find?_eq (hw.occupied_of_touches ha hm hs), fun p _ => h.held p, fun n _ => h.values n⟩
  obtain ⟨ho, ht⟩ := (hw.fits ha).agrees ha hcoincide hd hd'
  refine ⟨ho, ?_, ?_, ?_, ?_, ?_, ?_⟩
  · rw [ht.left.keys, ht.right.keys, h.keys]
  · intro s
    by_cases hs : s ∈ (st.footprint w).slots
    · exact .inl (ht.coincide.slots s hs)
    · rw [ht.left.slots s hs, ht.right.slots s hs, ht.left.controlOf hs, ht.right.controlOf hs]
      exact h.slots s
  · intro p
    by_cases hp : p ∈ (st.footprint w).held
    · exact ht.coincide.held p hp
    · rw [ht.left.held p hp, ht.right.held p hp, h.held p]
  · intro n
    by_cases hn : n ∈ (st.footprint w).values
    · exact ht.coincide.values n hn
    · rw [ht.left.values n hn, ht.right.values n hn, h.values n]
  · rw [ht.left.bag, ht.right.bag, h.bag]
  · obtain ⟨es, he, he', -⟩ := ht.trace
    rw [he, he', h.trace]

end World

/-! ### Steps that make a value -/

theorem Value.construction_congr {v : Value} (hv : v.type ≠ .single .probe) (c d : ControlBlock) :
    v.construction c = v.construction d := by
  cases v with
  | probe id onBuild onDestroy => exact absurd rfl hv
  | _ => rfl

theorem Origin.construction_congr (ho : o.type ≠ .single .probe) (c d : ControlBlock) :
    o.construction c = o.construction d := by
  cases o with
  | arguments seed => exact Value.construction_congr ho c d
  | moved seed | copied seed => rfl

/-- Of the block of its slot, a value that is placed depends on the state and on the storage. -/
theorem Origin.placement_congr (ho : o.type ≠ .single .probe) (h : c.Frames d) : o.placement c = o.placement d := by
  have hroom : c.hasRoom o.type.layout.size o.type.layout.alignment =
      d.hasRoom o.type.layout.size o.type.layout.alignment := by
    unfold ControlBlock.hasRoom
    rw [h.address, h.capacity]
  unfold Origin.placement
  rw [hroom, h.state, Origin.construction_congr ho { c with state := .constructing } { d with state := .constructing }]

namespace World

theorem find?_built (w : World) (s t : SlotId) (v : Value) (es : List Event) :
    (w.built s v es).slots.find? t = if t = s then
        (w.slots.find? t).map fun _ => ⟨{ w.controlOf s with state := .occupied, count := 1, type := some v.type }, some v⟩
      else w.slots.find? t := by
  have hset : (w.built s v es).slots.find? t = ((w.setStorage s v).setControl s
      { w.controlOf s with state := .occupied, count := 1, type := some v.type }).slots.find? t := rfl
  rw [hset, find?_setControl, find?_setStorage]
  by_cases hts : t = s
  · rw [if_pos hts, if_pos hts, if_pos hts, Option.map_map]
    rfl
  · rw [if_neg hts, if_neg hts, if_neg hts]

theorem keys_built (w : World) (s : SlotId) (v : Value) (es : List Event) :
    (w.built s v es).slots.map Prod.fst = w.slots.map Prod.fst := (keys_setControl ..).trans (keys_setStorage ..)

theorem storageOf_built (hx : (w.slots.find? s).isSome) (v : Value) (es : List Event) :
    (w.built s v es).storageOf s = some v := by
  obtain ⟨slot, hslot⟩ := Option.isSome_iff_exists.mp hx
  unfold storageOf
  rw [find?_built, if_pos rfl, hslot]
  rfl

theorem nestedIn_built (hx : (w.slots.find? s).isSome) (v : Value) (es : List Event) :
    (w.built s v es).nestedIn s = v.next? := by
  rw [nestedIn_of_occupied (by rw [controlOf_built hx]), storageOf_built hx, Option.bind_some]

theorem Alike.log (h : w.Alike u) (es : List Event) : (w.log es).Alike (u.log es) :=
  ⟨h.keys, h.slots, h.held, h.values, h.bag, congrArg (· ++ es) h.trace⟩

/-- A slot in which a value has been built is the same, whatever it was before. -/
theorem Alike.built (h : w.Alike u) (s : SlotId) (v : Value) (es : List Event) :
    (w.built s v es).Alike (u.built s v es) := by
  have hframes := h.frames s
  have hblock : ({ w.controlOf s with state := .occupied, count := 1, type := some v.type } : ControlBlock) =
      { u.controlOf s with state := .occupied, count := 1, type := some v.type } := by
    rw [ControlBlock.mk.injEq]
    exact ⟨rfl, rfl, rfl, hframes.address, hframes.capacity⟩
  refine ⟨by rw [keys_built, keys_built, h.keys], ?_, h.held, h.values, h.bag, ?_⟩
  · intro t
    rw [find?_built, find?_built]
    by_cases hts : t = s
    · left
      subst hts
      rw [if_pos rfl, if_pos rfl, hblock]
      have hx := isSome_find?_of_keys h.keys t
      cases hw : w.slots.find? t <;> cases hu : u.slots.find? t <;> simp_all
    · rw [if_neg hts, if_neg hts, controlOf_congr ((find?_built w s t v es).trans (if_neg hts)),
        controlOf_congr ((find?_built u s t v es).trans (if_neg hts))]
      exact h.slots t
  · have htrace : ∀ w : World, (w.built s v es).trace = (w.trace ++ es) ++ [.constructed s v.type] := fun _ => rfl
    rw [htrace, htrace, h.trace]

theorem Alike.setHandle_own (h : w.Alike u) (hown : p.isOwn) (g : Handle) :
    (w.setHandle p g).Alike (u.setHandle p g) := by
  rw [World.setHandle_own hown, World.setHandle_own hown]
  exact ⟨h.keys, h.slots, fun q => Table.find?_put_congr (h.held q) p g, h.values, h.bag, h.trace⟩

theorem Alike.make {into : Holder} {family : Family} {elem : Ty} {throwing : Bool} (h : w.Alike u) (hd : w.slots.Distinct)
    (ha : (HandleStep.make into s family elem o throwing).Admissible w) (ho : o.type ≠ .single .probe) :
    (HandleStep.make into s family elem o throwing).outcome w =
        (HandleStep.make into s family elem o throwing).outcome u ∧
      ((HandleStep.make into s family elem o throwing).after w).Alike
        ((HandleStep.make into s family elem o throwing).after u) := by
  obtain ⟨hinto, hx, -, -, hn⟩ := ha
  have hd' : u.slots.Distinct := distinct_of_keys h.keys.symm hd
  have hx' : (u.slots.find? s).isSome := (isSome_find?_of_keys h.keys.symm s).trans hx
  have hrun := run_make_apply into family elem hd hx hn throwing
  have hrun' := run_make_apply into family elem hd' hx' hn throwing
  rw [← Origin.placement_congr ho (h.frames s)] at hrun'
  unfold HandleStep.outcome HandleStep.after
  rw [hrun, hrun']
  cases o.placement (w.controlOf s) with
  | refused e => cases throwing <;> exact ⟨rfl, h⟩
  | threw t es => exact ⟨rfl, h.log es⟩
  | built es => exact ⟨rfl, (h.built s o.seed.value es).setHandle_own hinto.1 _⟩

theorem Alike.step (h : w.Alike u) (hw : w.Sound M) (ha : st.Admissible w) (hblind : st.IsBlind) :
    st.outcome w = st.outcome u ∧ (st.after w).Alike (st.after u) := by
  cases hm : st.makesIn? with
  | none => exact h.other hw ha hm
  | some s =>
    cases st with
    | make into s' family elem o throwing => exact h.make hw.balanced.distinct ha hblind
    | _ => cases hm

end World

/-! ### Programs -/

theorem World.Alike.stages (hs : AllEmpty slots) {program : List HandleStep} (hp : ∀ st ∈ program, st.IsBlind)
    (hr : Attained slots w) (h : w.Alike u) :
    (Feasible program w ↔ Feasible program u) ∧
      (Feasible program w → List.Forall₂ Stage.Same (SlotHandles.stages program w) (SlotHandles.stages program u)) := by
  -- along the program; the worlds stay alike, and the one with the used slot stays one of a handle program
  induction program generalizing w u with
  | nil => exact ⟨Iff.rfl, fun _ => .nil⟩
  | cons st rest ih =>
    obtain ⟨⟨lost, hw⟩, -⟩ := hr.sound hs
    have hsame : st.Admissible w → st.outcome w = st.outcome u ∧ (st.after w).Alike (st.after u) := fun ha =>
      h.step hw ha (hp st List.mem_cons_self)
    have hgoes : st.Admissible w → (st.stage w).goesOn = (st.stage u).goesOn := fun ha => by
      unfold HandleStep.stage Stage.goesOn
      rw [(hsame ha).1]
    have hrest : ∀ ha : st.Admissible w, (st.stage w).goesOn → _ := fun ha hgo =>
      ih (fun st' hst' => hp st' (List.mem_cons_of_mem _ hst')) (.step st hr ha (st.completes_of_goesOn hgo))
        (hsame ha).2
    refine ⟨⟨?_, ?_⟩, ?_⟩
    · rintro ⟨ha, hf⟩
      exact ⟨h.admissible ha, fun hgo => (hrest ha ((hgoes ha).trans hgo)).1.mp (hf ((hgoes ha).trans hgo))⟩
    · rintro ⟨ha', hf⟩
      have ha := h.symm.admissible ha'
      exact ⟨ha, fun hgo => (hrest ha hgo).1.mpr (hf ((hgoes ha).symm.trans hgo))⟩
    · rintro ⟨ha, hf⟩
      obtain ⟨ho, halike⟩ := hsame ha
      have hcounts : (st.stage w).goesOn → (st.after w).CountsLike (st.after u) := by
        intro hgo
        have hafter : Attained slots (st.after w) := .step st hr ha (st.completes_of_goesOn hgo)
        obtain ⟨⟨lost', hw'⟩, -⟩ := hafter.sound hs
        exact halike.countsLike hw'
      unfold SlotHandles.stages
      refine .cons ⟨ho, halike.looksLike, hcounts⟩ ?_
      rw [← hgoes ha]
      split
      · next hgo => exact (hrest ha hgo).2 (hf hgo)
      · exact .nil

/-- **A vacated slot is as good as new.**  From every world of a handle program, and of every program whose values do not
look at control blocks: if an empty slot is replaced by a fresh one of the same storage, the program can be run just as
well, and step by step it ends in the same way and leaves a world that looks the same. -/
theorem renewed_slot_is_unnoticed (hs : AllEmpty slots) (hr : Attained slots w) (he : (w.controlOf s).state = .empty)
    (program : List HandleStep) (hp : ∀ st ∈ program, st.IsBlind) :
    (Feasible program w ↔ Feasible program (w.renewed s)) ∧
      (Feasible program w → List.Forall₂ Stage.Same (stages program w) (stages program (w.renewed s))) :=
  World.Alike.stages hs hp hr (alike_renewed he)

/-! ### A slot that was used -/

/-- The world after a number was made and destroyed: its slot still has the count of the exclusive owner. -/
def vacated : World where
  slots := [(.numbered 0, ⟨⟨.empty, 1, none, 0, 64⟩, some (.int 7)⟩), (.numbered 1, ⟨.fresh 64 64, none⟩)]
  held := []
  bag := []
  values := []
  trace := [.constructed (.numbered 0) (.single .int), .destructed (.numbered 0) (.single .int)]

theorem attained_vacated : Attained twoSlots vacated :=
  .step (.destroy (.named "n"))
    (.step (.make (.named "n") (.numbered 0) .unique (.ofKind .int) (.arguments (Seed.plain (.int 7))) false) .start
      ⟨⟨rfl, rfl⟩, rfl, rfl, rfl, rfl, rfl⟩ (.returned _ rfl))
    ⟨rfl, _, rfl⟩ (.returned _ rfl)

/-- A number is made in the slot again, shared and read. -/
def reuse : List HandleStep :=
  [.make (.named "m") (.numbered 0) .shared (.ofKind .int) (.arguments (Seed.plain (.int 8))) false,
    .constructByCopy (.named "k") (.ofKind .int) (.named "m"), .dereference (.named "k")]

theorem renewed_slot_is_unnoticed_vacated : AllEmpty twoSlots ∧ Attained twoSlots vacated ∧
    (vacated.controlOf (.numbered 0)).state = .empty ∧ (∀ st ∈ reuse, st.IsBlind) ∧
    vacated.controlOf (.numbered 0) ≠ (vacated.renewed (.numbered 0)).controlOf (.numbered 0) ∧
    Feasible reuse vacated ∧ Feasible reuse (vacated.renewed (.numbered 0)) ∧
    List.Forall₂ Stage.Same (stages reuse vacated) (stages reuse (vacated.renewed (.numbered 0))) ∧
    (stages reuse vacated).length = 3 := by
  have hblind : ∀ st ∈ reuse, st.IsBlind := by
    intro st hst
    rcases List.mem_cons.mp hst with rfl | hst
    · exact show StoredType.single .int ≠ .single .probe by decide
    · rcases List.mem_pair.mp hst with rfl | rfl <;> exact trivial
  have hfeasible : Feasible reuse vacated :=
    ⟨⟨⟨rfl, rfl⟩, rfl, rfl, rfl, rfl, rfl⟩, fun _ => ⟨⟨⟨rfl, rfl⟩, _, rfl, rfl, rfl⟩, fun _ => ⟨⟨_, rfl, rfl⟩,
      fun _ => trivial⟩⟩⟩
  have hempty : (vacated.controlOf (.numbered 0)).state = .empty := rfl
  obtain ⟨hiff, hsame⟩ := renewed_slot_is_unnoticed allEmpty_twoSlots attained_vacated hempty reuse hblind
  exact ⟨allEmpty_twoSlots, attained_vacated, hempty, hblind, by decide, hfeasible, hiff.mp hfeasible, hsame hfeasible,
    rfl⟩

end SlotHandles
