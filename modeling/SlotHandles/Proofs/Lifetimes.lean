import SlotHandles.Proofs.Attained

/-!
# The lives of values

Between the steps of a handle program the history of every slot is a row of whole lives, each of them the
construction of a value followed by the one destruction of it as the type it was built with, and then the beginning
of the life of the value that the slot holds, if it holds one (`World.Accounted`).

A step destroys the value in a slot exactly if it takes the number of the live handles to the slot from one to zero,
and no step takes that number to zero from more than one (`World.EndsWithLast`).
-/

namespace SlotHandles

/-- The slot in which the event builds a value. -/
def Event.builds? : Event → Option SlotId
  | .constructed s _ => some s
  | _ => none

/-- The slot in which the event destroys a value. -/
def Event.ends? : Event → Option SlotId
  | .destructed s _ => some s
  | _ => none

/-- The life of a value, from its construction to its destruction as the same type. -/
def wholeLife (s : SlotId) (t : StoredType) : List Event := [.constructed s t, .destructed s t]

private theorem count_filterMap_lifeOf {g : Event → Option SlotId} {s : SlotId}
    (hg : ∀ e, g e = some s → e.marks s) (es : List Event) :
    (es.filterMap g).count s = ((lifeOf s es).filterMap g).count s := by
  induction es with
  | nil => rfl
  | cons e es ih =>
    unfold lifeOf at ih ⊢
    by_cases he : e.marks s
    · rw [List.filter_cons_of_pos he, List.filterMap_cons, List.filterMap_cons]
      cases g e with
      | none => exact ih
      | some t => rw [List.count_cons, List.count_cons, ih]
    · have hne : g e ≠ some s := fun h => he (hg e h)
      rw [List.filter_cons_of_neg he, List.filterMap_cons]
      cases hge : g e with
      | none => exact ih
      | some t =>
        have hts : t ≠ s := fun h => hne (h ▸ hge)
        rw [List.count_cons_of_ne hts, ih]

private theorem count_wholeLife {g : Event → Option SlotId} {s : SlotId}
    (hg : ∀ t, (wholeLife s t).filterMap g = [s]) (ts : List StoredType) :
    ((ts.flatMap (wholeLife s)).filterMap g).count s = ts.length := by
  induction ts with
  | nil => rfl
  | cons t ts ih => rw [List.flatMap_cons, List.filterMap_append, List.count_append, ih, hg, List.count_singleton_self,
      List.length_cons, Nat.add_comm]

namespace World

variable {w w' : World} {s : SlotId} {lost : Multiset Handle}

/-- The number of live handles that own the value in a slot. -/
def ownerCount (w : World) (s : SlotId) : Nat := owners w.handles .unique s + owners w.handles .shared s

def occupiedSlots (w : World) : List SlotId :=
  (w.slots.filter fun e => e.2.control.state = .occupied).map Prod.fst

/-- The past of every slot is a row of whole lives, and the present its value of the type last built. -/
structure Accounted (w : World) : Prop where
  lives : ∀ s, ∃ ts : List StoredType,
    lifeOf s w.trace = ts.flatMap (wholeLife s) ++ (w.typeIn s).toList.map (.constructed s)
  stored : ∀ s t, w.typeIn s = some t → ∃ v, w.storageOf s = some v ∧ v.type = t
  number : (w.trace.filterMap Event.builds?).length = (w.trace.filterMap Event.ends?).length + w.liveSlots

/-- The value in the slot is destroyed, once and as its own type, if the last handle to it goes, and only then. -/
structure EndsWithLast (w w' : World) (s : SlotId) : Prop where
  once : ((w'.since w).filterMap Event.ends?).count s ≤ 1
  ended : ∀ t, .destructed s t ∈ w'.since w ↔ w.typeIn s = some t ∧ w.ownerCount s = 1 ∧ w'.ownerCount s = 0
  last : 0 < w.ownerCount s → w'.ownerCount s = 0 → w.ownerCount s = 1 ∧ ∃ t, .destructed s t ∈ w'.since w

/-! ### Slots and the number of their owners -/

theorem length_occupiedSlots (w : World) : w.occupiedSlots.length = w.liveSlots := by
  unfold occupiedSlots liveSlots
  rw [List.length_map, List.countP_eq_length_filter]

theorem mem_occupiedSlots (hd : w.slots.Distinct) : s ∈ w.occupiedSlots ↔ (w.controlOf s).state = .occupied := by
  unfold occupiedSlots controlOf
  rw [List.mem_map]
  constructor
  · rintro ⟨⟨t, slot⟩, he, rfl⟩
    obtain ⟨he, ho⟩ := List.mem_filter.mp he
    rw [(Table.find?_eq_some_iff_mem hd).mpr he]
    exact of_decide_eq_true ho
  · intro ho
    cases hf : w.slots.find? s with
    | none =>
      rw [hf] at ho
      cases ho
    | some slot =>
      rw [hf] at ho
      exact ⟨(s, slot), List.mem_filter.mpr ⟨Table.mem_of_find?_eq_some hf, decide_eq_true ho⟩, rfl⟩

theorem count_occupiedSlots (hw : w.Sound 0) (s : SlotId) : w.occupiedSlots.count s = (w.typeIn s).toList.length := by
  have hd := hw.balanced.distinct
  have hnodup : w.occupiedSlots.Nodup := by
    refine List.Nodup.sublist ?_ (show (w.slots.map Prod.fst).Nodup from hd)
    exact List.filter_sublist.map Prod.fst
  by_cases ho : (w.controlOf s).state = .occupied
  · obtain ⟨v, -, ht, -⟩ := hw.balanced.value ho
    rw [ht, List.count_eq_one_of_mem hnodup ((mem_occupiedSlots hd).mpr ho)]
    rfl
  · rw [typeIn_of_not_occupied ho, List.count_eq_zero_of_not_mem fun h => ho ((mem_occupiedSlots hd).mp h)]
    rfl

private theorem owners_lost (w : World) (lost : Multiset Handle) (family : Family) (s : SlotId) :
    owners (lost + w.roots + w.nested) family s = owners lost family s + owners w.handles family s := by
  rw [add_assoc, owners_add]
  rfl

/-- A slot that is not occupied has no owners, live or lost. -/
theorem Sound.ownerCount_of_not_occupied (hw : w.Sound lost) (ho : (w.controlOf s).state ≠ .occupied) :
    owners lost .unique s = 0 ∧ w.ownerCount s = 0 := by
  have hnone : ∀ family, owners lost family s = 0 ∧ owners w.handles family s = 0 := by
    intro family
    have h := hw.balanced.owners_of_not_occupied ho family
    rw [owners_lost] at h
    exact Nat.add_eq_zero_iff.mp h
  refine ⟨(hnone _).1, ?_⟩
  unfold ownerCount
  rw [(hnone _).2, (hnone _).2]

/-- The count of an occupied slot is the number of its live owners, unless its only owner was lost. -/
theorem Sound.ownerCount_of_occupied (hw : w.Sound lost) (hlost : ∀ k ∈ lost, k.family = .unique)
    (ho : (w.controlOf s).state = .occupied) :
    owners lost .unique s ≠ 0 ∧ w.ownerCount s = 0 ∨
      owners lost .unique s = 0 ∧ w.ownerCount s = w.countOf s ∧ 0 < w.ownerCount s := by
  obtain ⟨hcount, halone⟩ := hw.balanced.owned s ho
  have hshared : owners lost .shared s = 0 := by
    by_contra hne
    obtain ⟨k, hk, hf, -⟩ := owners_pos_iff.mp (Nat.pos_of_ne_zero hne)
    rw [hlost k hk] at hf
    cases hf
  rw [owners_lost, owners_lost, hshared, Nat.zero_add] at hcount halone
  unfold ownerCount countOf
  omega

/-! ### Histories -/

/-- A turn of a slot continues its row of lives. -/
theorem Turn.lives {ts : List StoredType} (ht : w.Turn w' s) (htrace : w.trace <+: w'.trace)
    (hl : lifeOf s w.trace = ts.flatMap (wholeLife s) ++ (w.typeIn s).toList.map (.constructed s)) :
    ∃ ts' : List StoredType,
      lifeOf s w'.trace = ts'.flatMap (wholeLife s) ++ (w'.typeIn s).toList.map (.constructed s) := by
  rw [trace_eq_append_since htrace, lifeOf_append, hl]
  rcases ht with ⟨-, htype, hs⟩ | ⟨t, he, -, htype, hs⟩ | ⟨t, htype, -, he, hs⟩
  · exact ⟨ts, by rw [hs, htype, List.append_nil]⟩
  · have hnone : w.typeIn s = none := typeIn_of_not_occupied (by rw [he]; decide)
    exact ⟨ts, by simp [hs, htype, hnone]⟩
  · have hnone : w'.typeIn s = none := typeIn_of_not_occupied (by rw [he]; decide)
    exact ⟨ts ++ [t], by simp [hs, htype, hnone, wholeLife]⟩

/-- Where the past of every slot is a row of whole lives, the constructions are as many as the destructions and the
occupied slots together. -/
theorem Sound.number (hw : w.Sound 0) (hl : ∀ s, ∃ ts : List StoredType,
    lifeOf s w.trace = ts.flatMap (wholeLife s) ++ (w.typeIn s).toList.map (.constructed s)) :
    (w.trace.filterMap Event.builds?).length = (w.trace.filterMap Event.ends?).length + w.liveSlots := by
  have hperm : (w.trace.filterMap Event.builds?).Perm (w.trace.filterMap Event.ends? ++ w.occupiedSlots) := by
    -- in every slot each whole life is built and ended once, and only the value of an occupied slot lives on
    rw [List.perm_iff_count]
    intro s
    obtain ⟨ts, hts⟩ := hl s
    have hbuilds : ∀ e, Event.builds? e = some s → e.marks s := by
      intro e he
      cases e <;> simp_all [Event.builds?, Event.marks]
    have hends : ∀ e, Event.ends? e = some s → e.marks s := by
      intro e he
      cases e <;> simp_all [Event.ends?, Event.marks]
    rw [List.count_append, count_occupiedSlots hw, count_filterMap_lifeOf hbuilds, count_filterMap_lifeOf hends, hts,
      List.filterMap_append, List.filterMap_append, List.count_append, List.count_append,
      count_wholeLife fun _ => rfl, count_wholeLife fun _ => rfl]
    cases w.typeIn s with
    | none => rfl
    | some t => simp [List.filterMap_cons, Event.builds?, Event.ends?]
  rw [hperm.length_eq, List.length_append, length_occupiedSlots]

/-- Two worlds with the same lost handles and one turn of a slot between them: its value goes with the last live
handle. -/
theorem Turn.endsWithLast_of_lost (ht : w.Turn w' s) (hw : w.Sound lost) (hw' : w'.Sound lost)
    (hlost : ∀ k ∈ lost, k.family = .unique) : w.EndsWithLast w' s := by
  -- a value that is destroyed has owners, but no more than one
  have hone : ∀ {t}, .destructed s t ∈ w'.since w → w.ownerCount s = 1 ∧ w'.ownerCount s = 0 := by
    intro t hmem
    obtain ⟨htype, hcount, he⟩ := ht.of_destructed hmem
    obtain ⟨hnone, h0⟩ := hw'.ownerCount_of_not_occupied (by rw [he]; decide)
    have hc := hw.ownerCount_of_occupied hlost (typeIn_eq_some_iff.mp htype).1
    unfold countOf at hc
    exact ⟨by omega, h0⟩
  -- a slot that loses its last live owner is no longer occupied
  have hgone : 0 < w.ownerCount s → w'.ownerCount s = 0 → ∃ t, .destructed s t ∈ w'.since w := by
    intro hpos h0
    have ho : (w.controlOf s).state = .occupied := by
      by_contra ho
      have := (hw.ownerCount_of_not_occupied ho).2
      omega
    refine ht.destroys_iff.mpr ⟨ho, fun ho' => ?_⟩
    have := hw.ownerCount_of_occupied hlost ho
    have := hw'.ownerCount_of_occupied hlost ho'
    omega
  refine ⟨?_, ?_, ?_⟩
  · have hends : ∀ e, Event.ends? e = some s → e.marks s := by
      intro e he
      cases e <;> simp_all [Event.ends?, Event.marks]
    rw [count_filterMap_lifeOf hends]
    exact List.count_le_length.trans ((List.length_filterMap_le ..).trans ht.length_lifeOf_le)
  · intro t
    constructor
    · exact fun hmem => ⟨(ht.of_destructed hmem).1, hone hmem⟩
    · rintro ⟨htype, h1, h0⟩
      obtain ⟨u, hu⟩ := hgone (by omega) h0
      obtain rfl : t = u := Option.some_inj.mp (htype.symm.trans (ht.of_destructed hu).1)
      exact hu
  · intro hpos h0
    obtain ⟨t, hmem⟩ := hgone hpos h0
    exact ⟨(hone hmem).1, t, hmem⟩

theorem Turn.endsWithLast (ht : w.Turn w' s) (hw : w.Sound 0) (hw' : w'.Sound 0) : w.EndsWithLast w' s :=
  ht.endsWithLast_of_lost hw hw' (by simp)

end World

variable {w : World} {slots : Table SlotId Slot}

theorem Attained.lives (hs : AllEmpty slots) (hr : Attained slots w) (s : SlotId) : ∃ ts : List StoredType,
    lifeOf s w.trace = ts.flatMap (wholeLife s) ++ (w.typeIn s).toList.map (.constructed s) := by
  induction hr with
  | start =>
    have hnone : (World.ofSlots slots).typeIn s = none := World.typeIn_of_not_occupied (by rw [hs.state]; decide)
    exact ⟨[], by rw [hnone]; rfl⟩
  | step st hr ha hc ih =>
    obtain ⟨ts, hts⟩ := ih
    obtain ⟨lost, hw⟩ := (hr.sound hs).1
    have hev := (hc.loses hw ha).2
    exact (hev.slot s).lives hev.trace hts

/-- The last that happened to an occupied slot is the construction of its value. -/
theorem Attained.getLast?_lifeOf {s : SlotId} {t : StoredType} (hs : AllEmpty slots) (hr : Attained slots w)
    (ht : w.typeIn s = some t) : (lifeOf s w.trace).getLast? = some (.constructed s t) := by
  obtain ⟨ts, hlives⟩ := hr.lives hs s
  rw [hlives, ht, Option.toList_some, List.map_singleton, List.getLast?_append, List.getLast?_singleton]
  rfl

theorem Reachable.lives (hs : AllEmpty slots) (hr : Reachable slots w) (s : SlotId) : ∃ ts : List StoredType,
    lifeOf s w.trace = ts.flatMap (wholeLife s) ++ (w.typeIn s).toList.map (.constructed s) :=
  hr.attained.lives hs s

/-- After every step of a handle program each value that was built was destroyed at most once, as the type it was
built with, and the step that destroys it is the one in which the last handle to it goes. -/
theorem teardown_exactly_once (hs : AllEmpty slots) (hr : Reachable slots w) :
    w.Accounted ∧ ∀ (st : HandleStep) (w' : World), st.Admissible w → st.Completes w w' → st.Undisturbed w w' →
      ∀ s, w.EndsWithLast w' s := by
  have hw := (hr.sound hs).1
  refine ⟨⟨hr.lives hs, ?_, hw.number (hr.lives hs)⟩, ?_⟩
  · exact fun s t ht => hw.balanced.value_of_type ht
  · intro st w' ha hc hu s
    obtain ⟨hw', hev⟩ := hc.sound hw ha hu
    exact (hev.slot s).endsWithLast hw hw'

/-- The head of the linked pair is destroyed when the only handle to it goes. -/
theorem teardown_exactly_once_linkedPair : AllEmpty twoSlots ∧ Reachable twoSlots linkedPair ∧ linkedPair.Accounted ∧
    (HandleStep.destroy (.named "head")).Completes linkedPair tailOnly ∧
    linkedPair.EndsWithLast tailOnly (.numbered 1) ∧
    .destructed (.numbered 1) (.single .snode) ∈ tailOnly.since linkedPair := by
  obtain ⟨haccounted, hstep⟩ := teardown_exactly_once allEmpty_twoSlots linkedPair_reachable
  obtain ⟨ha, hc, hu⟩ := destroy_head
  have hends := hstep _ _ ha hc hu (.numbered 1)
  exact ⟨allEmpty_twoSlots, linkedPair_reachable, haccounted, hc, hends,
    (hends.ended _).mpr ⟨rfl, by decide, by decide⟩⟩

end SlotHandles
