import SlotHandles.Proofs.References
import SlotHandles.Proofs.Updates

/-!
# The life of a slot

Of all events, `lifeOf s` keeps those that build or destroy a value in the slot `s`.

`World.Sheds w w'` says that from `w` to `w'` values were torn down and nothing else happened: the handles and values
of the program are the same, and each slot either was left alone, but for its count, or lost its value, which had
one owner; its destruction is the one event in the life of that slot.
-/

namespace SlotHandles

/-- The event builds or destroys the value of the slot. -/
def Event.marks (s : SlotId) : Event → Bool
  | .constructed s' _ | .destructed s' _ => s' = s
  | _ => false

/-- The events that build and destroy the values of a slot. -/
def lifeOf (s : SlotId) (es : List Event) : List Event := es.filter (Event.marks s)

@[simp] theorem lifeOf_append (s : SlotId) (es es' : List Event) : lifeOf s (es ++ es') = lifeOf s es ++ lifeOf s es' :=
  List.filter_append ..

theorem mem_lifeOf_destructed {s : SlotId} {t : StoredType} {es : List Event} :
    Event.destructed s t ∈ lifeOf s es ↔ Event.destructed s t ∈ es := by
  simp [lifeOf, Event.marks]

/-- None of the events builds or destroys a value in a slot. -/
def Quiet (es : List Event) : Prop := ∀ s, lifeOf s es = []

theorem quiet_nil : Quiet [] := fun _ => rfl

theorem Quiet.append {es es' : List Event} (h : Quiet es) (h' : Quiet es') : Quiet (es ++ es') := by
  intro s
  rw [lifeOf_append, h s, h' s, List.nil_append]

theorem quiet_map {α : Type} {f : α → Event} (hf : ∀ x s, (f x).marks s = false) (l : List α) : Quiet (l.map f) := by
  intro s
  unfold lifeOf
  rw [List.filter_eq_nil_iff]
  intro e he
  obtain ⟨x, -, rfl⟩ := List.mem_map.mp he
  simp [hf]

theorem quiet_parting (v : Value) : Quiet v.parting := by
  cases v with
  | collection item items =>
    cases item with
    | tracked => exact quiet_map (fun _ _ => rfl) items.reverse
    | int | constInt | u8 => exact quiet_nil
  | _ => exact fun _ => rfl

theorem quiet_arrival (v : Value) : Quiet v.arrival := by
  cases v with
  | collection item items =>
    cases item with
    | tracked => exact quiet_map (fun _ _ => rfl) items
    | int | constInt | u8 => exact quiet_nil
  | _ => exact fun _ => rfl

theorem quiet_unwinding (v : Value) : Quiet v.unwinding := by
  cases v <;> exact fun _ => rfl

namespace World

variable {w w' u : World} {s : SlotId}

theorem since_eq {es : List Event} (h : w'.trace = w.trace ++ es) : w'.since w = es := by
  unfold since
  rw [h, List.drop_left]

theorem trace_eq_append_since (h : w.trace <+: w'.trace) : w'.trace = w.trace ++ w'.since w := by
  obtain ⟨es, he⟩ := h
  rw [since_eq he.symm, he]

@[simp] theorem since_self (w : World) : w.since w = [] := List.drop_length

theorem since_trans (h : w.trace <+: w'.trace) (h' : w'.trace <+: u.trace) : u.since w = w'.since w ++ u.since w' := by
  apply since_eq
  rw [← List.append_assoc, ← trace_eq_append_since h, ← trace_eq_append_since h']

/-- A value in the slot was torn down between the two worlds. -/
def TearsDown (w w' : World) (s : SlotId) : Prop :=
  ∃ t es, w'.trace = w.trace ++ es ∧ Event.destructed s t ∈ es

theorem TearsDown.mem_since (h : w.TearsDown w' s) : ∃ t, Event.destructed s t ∈ w'.since w := by
  obtain ⟨t, es, he, ht⟩ := h
  exact ⟨t, since_eq he ▸ ht⟩

theorem tearsDown_iff (hw : w.trace <+: w'.trace) : w.TearsDown w' s ↔ ∃ t, Event.destructed s t ∈ w'.since w := by
  refine ⟨TearsDown.mem_since, ?_⟩
  rintro ⟨t, ht⟩
  exact ⟨t, _, trace_eq_append_since hw, ht⟩

theorem TearsDown.widen {u' : World} (h : w.TearsDown w' s) (hu : u.trace <+: w.trace) (hu' : w'.trace <+: u'.trace) :
    u.TearsDown u' s := by
  obtain ⟨t, es, he, ht⟩ := h
  obtain ⟨before, hb⟩ := hu
  obtain ⟨after, ha⟩ := hu'
  refine ⟨t, before ++ (es ++ after), ?_, ?_⟩
  · rw [← ha, he, ← hb, List.append_assoc, List.append_assoc]
  · exact List.mem_append_right _ (List.mem_append_left _ ht)

/-- What became of a slot while values were torn down. -/
inductive Shedding (w w' : World) (s : SlotId) : Prop
  | kept : (w'.controlOf s).state = (w.controlOf s).state → w'.typeIn s = w.typeIn s →
      w'.storageOf s = w.storageOf s → lifeOf s (w'.since w) = [] → Shedding w w' s
  | ended (t : StoredType) : w.typeIn s = some t → (w.controlOf s).count.toNat ≤ 1 →
      (w'.controlOf s).state = .empty → lifeOf s (w'.since w) = [.destructed s t] → Shedding w w' s

/-- Nothing but the teardown of values happened from one world to the other. -/
structure Sheds (w w' : World) : Prop where
  held : w'.held = w.held
  bag : w'.bag = w.bag
  values : w'.values = w.values
  trace : w.trace <+: w'.trace
  slot : ∀ s, Shedding w w' s

theorem Sheds.refl (w : World) : w.Sheds w :=
  ⟨rfl, rfl, rfl, List.prefix_rfl, fun s => .kept rfl rfl rfl (by rw [since_self]; rfl)⟩

theorem Sheds.roots_eq (h : w.Sheds w') : w'.roots = w.roots := by
  unfold roots
  rw [h.held, h.bag, h.values]

theorem Sheds.kept (h : w.Sheds w') (hn : ¬ w.TearsDown w' s) :
    (w'.controlOf s).state = (w.controlOf s).state ∧ w'.typeIn s = w.typeIn s ∧ w'.storageOf s = w.storageOf s := by
  rcases h.slot s with ⟨hs, ht, hv, -⟩ | ⟨t, -, -, -, hl⟩
  · exact ⟨hs, ht, hv⟩
  · have hmem : Event.destructed s t ∈ w'.since w := mem_lifeOf_destructed.mp (hl ▸ List.mem_cons_self)
    exact absurd ((tearsDown_iff h.trace).mpr ⟨t, hmem⟩) hn

theorem Sheds.kept_of_not_occupied (h : w.Sheds w') (hs : (w.controlOf s).state ≠ .occupied) :
    (w'.controlOf s).state = (w.controlOf s).state := by
  rcases h.slot s with ⟨hk, -⟩ | ⟨t, ht, -⟩
  · exact hk
  · exact absurd (typeIn_eq_some_iff.mp ht).1 hs

theorem sheds_recount (hx : (w.slots.find? s).isSome) (n : UInt32) :
    w.Sheds (w.setControl s { w.controlOf s with count := n }) := by
  refine ⟨rfl, rfl, rfl, List.prefix_rfl, ?_⟩
  intro t
  obtain ⟨hstate, htype⟩ := state_typeIn_recount hx n t
  exact .kept hstate htype (storageOf_setControl ..) (congrArg (lifeOf t) (since_self w))

/-! ### Steps -/

/-- What became of a slot in a step: nothing, or a value was built in it, or the value of a single owner was torn
down. -/
inductive Turn (w w' : World) (s : SlotId) : Prop
  | kept : (w'.controlOf s).state = (w.controlOf s).state → w'.typeIn s = w.typeIn s → lifeOf s (w'.since w) = [] →
      Turn w w' s
  | built (t : StoredType) : (w.controlOf s).state = .empty → (w'.controlOf s).state = .occupied →
      w'.typeIn s = some t → lifeOf s (w'.since w) = [.constructed s t] → Turn w w' s
  | ended (t : StoredType) : w.typeIn s = some t → (w.controlOf s).count.toNat ≤ 1 →
      (w'.controlOf s).state = .empty → lifeOf s (w'.since w) = [.destructed s t] → Turn w w' s

theorem Turn.length_lifeOf_le (h : w.Turn w' s) : (lifeOf s (w'.since w)).length ≤ 1 := by
  rcases h with ⟨-, -, hl⟩ | ⟨t, -, -, -, hl⟩ | ⟨t, -, -, -, hl⟩
  · rw [hl]
    exact Nat.zero_le 1
  · rw [hl, List.length_singleton]
  · rw [hl, List.length_singleton]

/-- A value that is destroyed had one owner at most, and is destroyed as its own type. -/
theorem Turn.of_destructed {t : StoredType} (h : w.Turn w' s) (ht : .destructed s t ∈ w'.since w) :
    w.typeIn s = some t ∧ (w.controlOf s).count.toNat ≤ 1 ∧ (w'.controlOf s).state = .empty := by
  rw [← mem_lifeOf_destructed] at ht
  rcases h with ⟨-, -, hl⟩ | ⟨u, -, -, -, hl⟩ | ⟨u, htype, hcount, he, hl⟩
  · rw [hl] at ht
    cases ht
  · rw [hl, List.mem_singleton] at ht
    cases ht
  · rw [hl, List.mem_singleton] at ht
    cases ht
    exact ⟨htype, hcount, he⟩

/-- A value is destroyed in a slot exactly if the slot was occupied and no longer is. -/
theorem Turn.destroys_iff (h : w.Turn w' s) : (∃ t, .destructed s t ∈ w'.since w) ↔
    (w.controlOf s).state = .occupied ∧ (w'.controlOf s).state ≠ .occupied := by
  constructor
  · rintro ⟨t, ht⟩
    obtain ⟨htype, -, he⟩ := h.of_destructed ht
    exact ⟨(typeIn_eq_some_iff.mp htype).1, by rw [he]; decide⟩
  · rintro ⟨ho, hne⟩
    rcases h with ⟨hs, -, -⟩ | ⟨u, he, -, -, -⟩ | ⟨u, -, -, -, hl⟩
    · exact absurd (hs.trans ho) hne
    · exact absurd (he.symm.trans ho) (by decide)
    · exact ⟨u, mem_lifeOf_destructed.mp (hl ▸ List.mem_cons_self)⟩

/-- Every slot has at most one turn from one world to the other. -/
structure Evolves (w w' : World) : Prop where
  trace : w.trace <+: w'.trace
  slot : ∀ s, Turn w w' s

/-- No value is built or torn down, and no count goes down. -/
structure Calm (w w' : World) : Prop where
  trace : w.trace <+: w'.trace
  state : ∀ s, (w'.controlOf s).state = (w.controlOf s).state
  type : ∀ s, w'.typeIn s = w.typeIn s
  count : ∀ s, (w.controlOf s).count.toNat ≤ (w'.controlOf s).count.toNat
  life : ∀ s, lifeOf s (w'.since w) = []

theorem calm_of_controlOf {es : List Event} (ht : w'.trace = w.trace ++ es) (hq : Quiet es)
    (hc : ∀ s, w'.controlOf s = w.controlOf s) : w.Calm w' := by
  refine ⟨⟨es, ht.symm⟩, ?_, ?_, ?_, ?_⟩
  · intro s
    rw [hc]
  · exact fun s => typeIn_congr (hc s)
  · intro s
    rw [hc]
  · intro s
    rw [since_eq ht]
    exact hq s

theorem Calm.refl (w : World) : w.Calm w := calm_of_controlOf (List.append_nil _).symm quiet_nil fun _ => rfl

theorem calm_log {es : List Event} (hq : Quiet es) : w.Calm (w.log es) := calm_of_controlOf rfl hq fun _ => rfl

theorem Calm.trans (h : w.Calm u) (h' : u.Calm w') : w.Calm w' := by
  refine ⟨h.trace.trans h'.trace, ?_, ?_, ?_, ?_⟩
  · intro s
    rw [h'.state, h.state]
  · intro s
    rw [h'.type, h.type]
  · intro s
    exact (h.count s).trans (h'.count s)
  · intro s
    rw [since_trans h.trace h'.trace, lifeOf_append, h.life, h'.life, List.append_nil]

theorem Calm.evolves (h : w.Calm w') : w.Evolves w' := ⟨h.trace, fun s => .kept (h.state s) (h.type s) (h.life s)⟩

theorem Sheds.evolves (h : w.Sheds w') : w.Evolves w' := by
  refine ⟨h.trace, ?_⟩
  intro s
  rcases h.slot s with ⟨hs, ht, -, hl⟩ | ⟨t, ht, hc, he, hl⟩
  · exact .kept hs ht hl
  · exact .ended t ht hc he hl

theorem Calm.trans_evolves (h : w.Calm u) (h' : u.Evolves w') : w.Evolves w' := by
  refine ⟨h.trace.trans h'.trace, ?_⟩
  intro s
  have hl : lifeOf s (w'.since w) = lifeOf s (w'.since u) := by
    rw [since_trans h.trace h'.trace, lifeOf_append, h.life, List.nil_append]
  rcases h'.slot s with ⟨hs, ht, hl'⟩ | ⟨t, h1, h2, h3, hl'⟩ | ⟨t, h1, h2, h3, hl'⟩
  · exact .kept (hs.trans (h.state s)) (ht.trans (h.type s)) (hl.trans hl')
  · exact .built t (h.state s ▸ h1) h2 h3 (hl.trans hl')
  · exact .ended t (h.type s ▸ h1) ((h.count s).trans h2) h3 (hl.trans hl')

theorem Evolves.trans_calm (h : w.Evolves u) (h' : u.Calm w') : w.Evolves w' := by
  refine ⟨h.trace.trans h'.trace, ?_⟩
  intro s
  have hl : lifeOf s (w'.since w) = lifeOf s (u.since w) := by
    rw [since_trans h.trace h'.trace, lifeOf_append, h'.life, List.append_nil]
  rcases h.slot s with ⟨hs, ht, hl'⟩ | ⟨t, h1, h2, h3, hl'⟩ | ⟨t, h1, h2, h3, hl'⟩
  · exact .kept ((h'.state s).trans hs) ((h'.type s).trans ht) (hl.trans hl')
  · exact .built t h1 ((h'.state s).trans h2) ((h'.type s).trans h3) (hl.trans hl')
  · exact .ended t h1 h2 ((h'.state s).trans h3) (hl.trans hl')

theorem calm_recount (hx : (w.slots.find? s).isSome) {n : UInt32} (hn : (w.controlOf s).count.toNat ≤ n.toNat) :
    w.Calm (w.setControl s { w.controlOf s with count := n }) := by
  have hkept := state_typeIn_recount hx n
  refine ⟨List.prefix_rfl, fun t => (hkept t).1, fun t => (hkept t).2, ?_, fun t => congrArg (lifeOf t) (since_self w)⟩
  intro t
  by_cases hts : t = s
  · subst hts
    rw [controlOf_setControl_self _ hx]
    exact hn
  · rw [controlOf_setControl_of_ne _ _ hts]

/-- Outside of operations a slot holds a value or is empty. -/
def Stable (w : World) : Prop := ∀ s, (w.controlOf s).state = .empty ∨ (w.controlOf s).state = .occupied

theorem Evolves.stable (h : w.Evolves w') (hw : w.Stable) : w'.Stable := by
  intro s
  rcases h.slot s with ⟨hs, -, -⟩ | ⟨-, -, hs, -, -⟩ | ⟨-, -, -, hs, -⟩
  · rw [hs]
    exact hw s
  · exact .inr hs
  · exact .inl hs

end World

end SlotHandles
