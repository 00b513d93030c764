import SlotHandles.Proofs.Addresses
import SlotHandles.Proofs.Extent
import SlotHandles.Proofs.Graph

/-!
# Separation

A step touches the slots that it names and all slots to which edges of the ownership graph lead from these.  In the
worlds of handle programs nothing leads out of what a step touches, so it is local to this footprint: it leaves every
other slot and every other handle alone (`HandleStep.Spares`).

Two steps that name different places and touch different slots therefore commute.  Either one ends as it does without
the other, and the same slots, handles and values are left; of what was announced, each slot has the same part.
-/

namespace SlotHandles

open World

variable {slots : Table SlotId Slot} {w w' u : World} {st a b : HandleStep} {s r : SlotId} {p : Holder} {h : Handle}
  {v : Value} {M : Multiset Handle}

namespace HandleStep

/-- The step makes a value in the slot, or names the handle that is stored there, or names a handle to its value. -/
def Names (w : World) (st : HandleStep) (s : SlotId) : Prop :=
  st.makesIn? = some s ∨ .inside s ∈ st.places ∨ ∃ p ∈ st.places, ∃ h, w.live? p = some h ∧ h.slot = some s

/-- The slot is named, or a path of edges leads to it from one that is. -/
def Touches (w : World) (st : HandleStep) (s : SlotId) : Prop := ∃ r, st.Names w r ∧ Relation.ReflTransGen w.Edge r s

/-- What the step touches, and the places of the program's own that it names. -/
def footprint (w : World) (st : HandleStep) : Footprint where
  slots := {s | st.Touches w s}
  held := {p | p ∈ st.places ∧ p.isOwn}
  values := {name | .within name ∈ st.places}

/-- The step leaves everything alone that it does not touch. -/
structure Spares (st : HandleStep) (w w' : World) : Prop where
  control : ∀ s, ¬ st.Touches w s → w'.controlOf s = w.controlOf s
  storage : ∀ s, ¬ st.Touches w s → w'.storageOf s = w.storageOf s
  handles : ∀ p, p ∉ st.places → (∀ s, p = .inside s → ¬ st.Touches w s) → w'.live? p = w.live? p
  bag : w'.bag = w.bag
  life : ∀ s, ¬ st.Touches w s → lifeOf s (w'.since w) = []

/-- The steps name different places and touch different slots. -/
structure Separate (w : World) (a b : HandleStep) : Prop where
  places : ∀ p ∈ a.places, p ∉ b.places
  slots : ∀ s, a.Touches w s → ¬ b.Touches w s

end HandleStep

/-- The footprints have nothing in common. -/
structure Footprint.Apart (F G : Footprint) : Prop where
  slots : ∀ s ∈ F.slots, s ∉ G.slots
  held : ∀ p ∈ F.held, p ∉ G.held
  values : ∀ name ∈ F.values, name ∉ G.values

theorem HandleStep.Separate.symm (h : a.Separate w b) : b.Separate w a :=
  ⟨fun p hp hpa => h.places p hpa hp, fun s hs hsa => h.slots s hsa hs⟩

theorem HandleStep.Separate.apart (h : a.Separate w b) : (a.footprint w).Apart (b.footprint w) :=
  ⟨h.slots, fun p hp hpb => h.places p hp.1 hpb.1, fun _ hn => h.places _ hn⟩

/-- The worlds are the same, up to the order in which different slots were announced. -/
structure World.Matches (w u : World) : Prop where
  slots : w.slots = u.slots
  held : ∀ p, w.held.find? p = u.held.find? p
  values : ∀ name, w.values.find? name = u.values.find? name
  bag : w.bag = u.bag
  lives : ∀ s, lifeOf s w.trace = lifeOf s u.trace

/-! ### Nothing leads out of what a step touches -/

theorem HandleStep.Names.touches (h : st.Names w s) : st.Touches w s := ⟨s, h, .refl⟩

theorem HandleStep.Touches.edge (h : st.Touches w r) (he : w.Edge r s) : st.Touches w s := by
  obtain ⟨q, hq, hpath⟩ := h
  exact ⟨q, hq, hpath.tail he⟩

/-- A handle that refers to its slot leads into every footprint that has this slot. -/
theorem Handle.RefersIn.leadsInto {F : Footprint} (hr : h.RefersIn w) (hs : ∀ s, h.slot = some s → s ∈ F.slots) :
    h.LeadsInto F := by
  refine ⟨hs, fun a ha => ?_⟩
  have hsome : h.isSome := (hr.isSome_address_iff.mp (by rw [ha]; rfl)).1
  obtain ⟨s, hslot⟩ := Option.isSome_iff_exists.mp hsome
  obtain ⟨t, -, hd⟩ := (Handle.refersIn_of_slot_eq_some hslot).mp hr
  rw [(hd.address ha).1]
  exact hs s hslot

/-- The places in slots that a step names are those of live values. -/
theorem HandleStep.Admissible.occupied_of_inside (ha : st.Admissible w) (hp : .inside s ∈ st.places) :
    (w.controlOf s).state = .occupied := by
  have hlive : ∀ h, w.live? (.inside s) = some h → (w.controlOf s).state = .occupied := fun h hl =>
    (nestedIn_eq_some_iff.mp hl).1
  have hvacant : ¬ w.Vacant (.inside s) := fun hv => Bool.noConfusion hv.1
  cases st with
  | empty into family elem | make into s' family elem origin throwing =>
    obtain rfl := List.mem_singleton.mp hp
    exact absurd ha.1 hvacant
  | constructByMove into elem source | constructByCopy into elem source =>
    obtain ⟨hinto, k, hk, -⟩ := ha
    rcases List.mem_pair.mp hp with rfl | rfl
    · exact absurd hinto hvacant
    · exact hlive k hk
  | assignByMove target source | assignByCopy target source | swap target source =>
    obtain ⟨k, k', hk, hk', -⟩ := ha
    rcases List.mem_pair.mp hp with rfl | rfl
    · exact hlive k hk
    · exact hlive k' hk'
  | reset p =>
    obtain ⟨k, hk⟩ := ha
    obtain rfl := List.mem_singleton.mp hp
    exact hlive k hk
  | destroy p =>
    obtain rfl := List.mem_singleton.mp hp
    exact Bool.noConfusion ha.1
  | castByMove into elem source =>
    obtain ⟨hinto, -, k, hk⟩ := ha
    rcases List.mem_pair.mp hp with rfl | rfl
    · exact absurd hinto hvacant
    · exact hlive k hk
  | castByCopy into elem source =>
    obtain ⟨hinto, -, k, hk, -⟩ := ha
    rcases List.mem_pair.mp hp with rfl | rfl
    · exact absurd hinto hvacant
    · exact hlive k hk
  | take into p =>
    obtain ⟨-, k, hk, -⟩ := ha
    rcases List.mem_pair.mp hp with hp | rfl
    · cases hp
    · exact hlive k hk
  | destroyTaken name => cases List.mem_singleton.mp hp
  | dereference p | readItem p i | writeItem p i n =>
    obtain ⟨k, hk, -⟩ := ha
    obtain rfl := List.mem_singleton.mp hp
    exact hlive k hk
  | change p f =>
    obtain ⟨-, k, hk, -⟩ := ha
    obtain rfl := List.mem_singleton.mp hp
    exact hlive k hk
  | call p m =>
    obtain ⟨k, face, hk, -⟩ := ha
    obtain rfl := List.mem_singleton.mp hp
    exact hlive k hk

theorem World.Sound.occupied_of_touches (hw : w.Sound M) (ha : st.Admissible w) (hm : st.makesIn? = none)
    (ht : st.Touches w s) : (w.controlOf s).state = .occupied := by
  obtain ⟨r, hr, hpath⟩ := ht
  cases hpath with
  | refl =>
    rcases hr with hr | hr | ⟨p, -, h, hl, hs⟩
    · rw [hm] at hr
      cases hr
    · exact ha.occupied_of_inside hr
    · exact (hw.refersIn_of_live hl).occupied hs
  | tail _ he =>
    obtain ⟨h, hn, hs⟩ := he
    exact (hw.refersIn_of_live (p := .inside _) hn).occupied hs

theorem World.Sound.closed_footprint (hw : w.Sound M) (ha : st.Admissible w) (hm : st.makesIn? = none) :
    w.Closed (st.footprint w) := by
  refine ⟨?_, ?_, ?_⟩
  · intro s hs v hv
    obtain ⟨-, hn, hp⟩ := hw.balanced.value_of_storage (hw.occupied_of_touches ha hm hs) hv
    refine ⟨hp.passive, fun h hh => ?_⟩
    have hl : w.live? (.inside s) = some h := hn.trans hh
    exact (hw.refersIn_of_live hl).leadsInto fun t ht => HandleStep.Touches.edge hs ⟨h, hl, ht⟩
  · rintro p ⟨hp, hown⟩ h hh
    have hl : w.live? p = some h := by
      cases p with
      | named n | result n => exact hh
      | inside s | within n => cases hown
    exact (hw.refersIn_of_live hl).leadsInto fun t ht => HandleStep.Names.touches (.inr (.inr ⟨p, hp, h, hl, ht⟩))
  · intro name hname v hv
    refine ⟨(hw.proper name v hv).passive, fun h hh => ?_⟩
    have hl : w.live? (.within name) = some h := by
      unfold World.live? World.handle?
      dsimp only
      rw [hv]
      exact hh
    exact (hw.refersIn_of_live hl).leadsInto fun t ht =>
      HandleStep.Names.touches (.inr (.inr ⟨_, hname, h, hl, ht⟩))

theorem World.Sound.fits (hw : w.Sound M) (ha : st.Admissible w) : st.Fits (st.footprint w) w := by
  refine ⟨?_, fun s hs => HandleStep.Names.touches (.inl hs), fun hm => hw.closed_footprint ha hm⟩
  intro p hp
  cases p with
  | named n | result n => exact ⟨hp, rfl⟩
  | inside s => exact HandleStep.Names.touches (.inr (.inl hp))
  | within n => exact hp

/-! ### What is not touched -/

theorem World.Confined.spares (h : w.Confined (st.footprint w) w')
    (hlife : ∀ s, ¬ st.Touches w s → lifeOf s (w'.since w) = []) : st.Spares w w' := by
  refine ⟨fun s hs => h.controlOf hs, fun s hs => h.storageOf hs, ?_, h.bag, hlife⟩
  intro p hp hin
  refine h.live? ?_
  cases p with
  | named n | result n => exact fun hpF => hp hpF.1
  | inside s => exact hin s rfl
  | within n => exact hp

theorem World.Sound.spares (hw : w.Sound M) (ha : st.Admissible w) : st.Spares w (st.after w) := by
  have hd := hw.balanced.distinct
  obtain ⟨-, ht⟩ := (hw.fits ha).agrees ha (.refl _ w) hd hd
  obtain ⟨es, he, -, hquiet⟩ := ht.trace
  refine ht.left.spares fun s hs => ?_
  rw [since_eq he]
  exact hquiet s hs

/-! ### Two steps -/

/-- Of two changes that concern different keys, either one may come first. -/
private theorem lookup_commutes {κ ν : Type} {A B : Set κ} {f fa fb fab fba : κ → ν} (hd : ∀ k ∈ A, k ∉ B)
    (ha : ∀ k ∈ A, fa k = fba k) (hb : ∀ k ∈ B, fb k = fab k) (hfa : ∀ k, k ∉ A → fa k = f k)
    (hfba : ∀ k, k ∉ A → fba k = fb k) (hfb : ∀ k, k ∉ B → fb k = f k) (hfab : ∀ k, k ∉ B → fab k = fa k) (k : κ) :
    fab k = fba k := by
  by_cases hA : k ∈ A
  · rw [hfab k (hd k hA), ha k hA]
  · by_cases hB : k ∈ B
    · rw [hfba k hA, hb k hB]
    · rw [hfab k hB, hfa k hA, hfba k hA, hfb k hB]

section

variable {F G : Footprint} {wa wb wab wba : World}

/-- The changes on two footprints that are apart may be made in either order. -/
theorem World.Together.matches (h : F.Apart G) (hd : w.slots.Distinct) (hF : Together F w wa wb wba)
    (hG : Together G w wb wa wab) : wab.Matches wba := by
  refine ⟨?_, ?_, ?_, ?_, ?_⟩
  · have hkeys : wab.slots.map Prod.fst = wba.slots.map Prod.fst := by
      rw [hG.right.keys, hF.left.keys, hF.right.keys, hG.left.keys]
    have hd' : wba.slots.Distinct := distinct_of_keys (hF.right.keys.trans hG.left.keys) hd
    exact Table.ext_of_find? hd' hkeys (lookup_commutes h.slots hF.coincide.slots hG.coincide.slots hF.left.slots
      hF.right.slots hG.left.slots hG.right.slots)
  · exact lookup_commutes h.held hF.coincide.held hG.coincide.held hF.left.held hF.right.held hG.left.held hG.right.held
  · exact lookup_commutes h.values hF.coincide.values hG.coincide.values hF.left.values hF.right.values hG.left.values
      hG.right.values
  · rw [hG.right.bag, hF.left.bag, hF.right.bag, hG.left.bag]
  · intro s
    obtain ⟨es, hwa, hwba, hes⟩ := hF.trace
    obtain ⟨fs, hwb, hwab, hfs⟩ := hG.trace
    rw [hwab, hwa, hwba, hwb]
    simp only [lifeOf_append]
    by_cases hs : s ∈ F.slots
    · rw [hfs s (h.slots s hs), List.append_nil, List.append_nil]
    · rw [hes s hs, List.append_nil, List.append_nil]

theorem World.Together.since_eq_since (hF : Together F w wa wb wba) : wba.since wb = wa.since w := by
  obtain ⟨es, hwa, hwba, -⟩ := hF.trace
  rw [since_eq hwba, since_eq hwa]

end

/-- What changed on one footprint only looks the same on another. -/
theorem World.Confined.coincide {F G : Footprint} (h : w.Confined G w') (ha : F.Apart G) : w.Coincide F w' :=
  ⟨fun s hs => (h.slots s (ha.slots s hs)).symm, fun p hp => (h.held p (ha.held p hp)).symm,
    fun n hn => (h.values n (ha.values n hn)).symm⟩

/-- The step ends as it does without the other, with the same announcements. -/
structure HandleStep.Undeterred (st other : HandleStep) (w : World) : Prop where
  admissible : st.Admissible (other.after w)
  outcome : st.outcome (other.after w) = st.outcome w
  events : (st.after (other.after w)).since (other.after w) = (st.after w).since w

private theorem together_after (hw : w.Sound M) (ha : a.Admissible w) (hb : b.Admissible w) (h : a.Separate w b) :
    a.Undeterred b w ∧ Together (a.footprint w) w (a.after w) (b.after w) (a.after (b.after w)) := by
  have hd := hw.balanced.distinct
  obtain ⟨-, hother⟩ := (hw.fits hb).agrees hb (.refl _ w) hd hd
  have hcoincide := hother.left.coincide h.apart
  have hd' := distinct_of_keys hother.left.keys hd
  obtain ⟨ho, ht⟩ := (hw.fits ha).agrees ha hcoincide hd hd'
  exact ⟨⟨(hw.fits ha).admissible ha hcoincide, ho.symm, ht.since_eq_since⟩, ht⟩

theorem World.Sound.commutes (hw : w.Sound M) (ha : a.Admissible w) (hb : b.Admissible w) (h : a.Separate w b) :
    a.Undeterred b w ∧ b.Undeterred a w ∧ (b.after (a.after w)).Matches (a.after (b.after w)) := by
  obtain ⟨hfirst, hF⟩ := together_after hw ha hb h
  obtain ⟨hsecond, hG⟩ := together_after hw hb ha h.symm
  exact ⟨hfirst, hsecond, hF.matches h.apart hw.balanced.distinct hG⟩

/-- **Separation.**  In every world of a handle program, a step leaves the control block and the value of every slot
alone that it does not touch, and every handle that it does not name and that is not stored in a slot it touches.  Two
steps that name different places and touch different slots commute. -/
theorem separate_steps_commute (hs : AllEmpty slots) (hr : Attained slots w) :
    (∀ st : HandleStep, st.Admissible w → st.Spares w (st.after w)) ∧
    ∀ a b : HandleStep, a.Admissible w → b.Admissible w → a.Separate w b →
      a.Undeterred b w ∧ b.Undeterred a w ∧ (b.after (a.after w)).Matches (a.after (b.after w)) := by
  obtain ⟨⟨lost, hw⟩, -⟩ := hr.sound hs
  exact ⟨fun st ha => hw.spares ha, fun a b ha hb h => hw.commutes ha hb h⟩

/-- The handle of the second part lets go. -/
def resetSecond : HandleStep := .reset (.named "second")

/-- A number is made in the slot that is left. -/
def makeSeven : HandleStep :=
  .make (.named "n") (.numbered 1) .unique (.ofKind .int) (.arguments (Seed.plain (.int 7))) false

theorem separate_steps_commute_twoParts : AllEmpty twoSlots ∧ Attained twoSlots twoParts ∧
    resetSecond.Admissible twoParts ∧ makeSeven.Admissible twoParts ∧ resetSecond.Separate twoParts makeSeven ∧
    resetSecond.Spares twoParts (resetSecond.after twoParts) ∧ resetSecond.Undeterred makeSeven twoParts ∧
    makeSeven.Undeterred resetSecond twoParts ∧
    (makeSeven.after (resetSecond.after twoParts)).Matches (resetSecond.after (makeSeven.after twoParts)) ∧
    (makeSeven.after (resetSecond.after twoParts)).typeIn (.numbered 0) = none ∧
    (makeSeven.after (resetSecond.after twoParts)).typeIn (.numbered 1) = some (.single .int) := by
  have ha : resetSecond.Admissible twoParts := ⟨secondPart, rfl⟩
  have hb : makeSeven.Admissible twoParts := ⟨⟨rfl, rfl⟩, rfl, rfl, rfl, rfl, rfl⟩
  have hdistinct : twoParts.slots.Distinct := show (twoParts.slots.map Prod.fst).Nodup by decide
  -- neither value stores a handle, so the steps touch the slots that they name
  have hedge : ∀ x y, ¬ twoParts.Edge x y := by
    rintro x y ⟨h, hn, -⟩
    exact Multiset.notMem_zero h ((mem_nested hdistinct).mpr ⟨x, hn⟩)
  have hnames : ∀ (st : HandleStep) (s : SlotId), st.Touches twoParts s → st.Names twoParts s := by
    rintro st s ⟨r, hr, hpath⟩
    rcases Relation.ReflTransGen.cases_head hpath with rfl | ⟨x, hx, -⟩
    · exact hr
    · exact absurd hx (hedge r x)
  have ha0 : ∀ s, resetSecond.Names twoParts s → s = .numbered 0 := by
    rintro s (hm | hin | ⟨p, hp, h, hl, hs⟩)
    · cases hm
    · cases List.mem_singleton.mp hin
    · obtain rfl := List.mem_singleton.mp hp
      cases hl
      exact (Option.some_inj.mp hs).symm
  have hb1 : ∀ s, makeSeven.Names twoParts s → s = .numbered 1 := by
    rintro s (hm | hin | ⟨p, hp, h, hl, hs⟩)
    · exact (Option.some_inj.mp hm).symm
    · cases List.mem_singleton.mp hin
    · obtain rfl := List.mem_singleton.mp hp
      cases hl
  have hseparate : resetSecond.Separate twoParts makeSeven := by
    refine ⟨show ∀ p ∈ resetSecond.places, p ∉ makeSeven.places by decide, ?_⟩
    intro s hs hs'
    have h0 := ha0 s (hnames resetSecond s hs)
    rw [hb1 s (hnames makeSeven s hs')] at h0
    cases h0
  obtain ⟨hframe, hcommute⟩ := separate_steps_commute allEmpty_twoSlots attained_twoParts
  obtain ⟨hau, hbu, hmatch⟩ := hcommute resetSecond makeSeven ha hb hseparate
  exact ⟨allEmpty_twoSlots, attained_twoParts, ha, hb, hseparate, hframe resetSecond ha, hau, hbu, hmatch, rfl, rfl⟩

end SlotHandles
