import SlotHandles.Proofs.Steps
import Mathlib.Order.WellFoundedSet

/-!
# The ownership graph

There is an edge from a slot to another if the live value in the first stores a handle to the second.  A slot is
reached if a path leads to it from a slot to which the program holds a handle.

Every handle refers to an occupied slot, so what is reached is occupied.  Every occupied slot has an owner, either
the program or a value in another slot.  If the graph has no cycle, the search for an owner of the owner comes to an
end, and it ends with the program: what is occupied is reached.
-/

namespace SlotHandles

namespace World

variable {w w' : World} {s r a b : SlotId}

/-- The live value in a slot stores a handle to the other slot. -/
def Edge (w : World) (a b : SlotId) : Prop := ∃ h, w.nestedIn a = some h ∧ h.slot = some b

/-- No path of edges returns to its start. -/
def Acyclic (w : World) : Prop := ∀ s, ¬ Relation.TransGen w.Edge s s

def Held (w : World) (s : SlotId) : Prop := ∃ h ∈ w.roots, h.slot = some s

/-- A path of edges leads to the slot from one that the program holds. -/
def Reached (w : World) (s : SlotId) : Prop := ∃ r, w.Held r ∧ Relation.ReflTransGen w.Edge r s

/-- A new value that has room in the slot is built there on demand, unless its constructor throws. -/
def Accepts (w : World) (s : SlotId) : Prop :=
  ∀ (into : Holder) (family : Family) (elem : Ty) (o : Origin) (throwing : Bool),
    (HandleStep.make into s family elem o throwing).Admissible w →
    (w.controlOf s).hasRoom o.type.size o.type.alignment →
    Ends (HandleStep.make into s family elem o throwing).run w
      (fun answer w' => answer = .done ∧ w'.typeIn s = some o.type)
      (fun f _ => ∃ t, f = .exception t ∧ o.Throws w s t)

theorem Held.reached (h : w.Held s) : w.Reached s := ⟨s, h, .refl⟩

theorem Reached.edge (h : w.Reached a) (he : w.Edge a b) : w.Reached b := by
  obtain ⟨r, hr, hp⟩ := h
  exact ⟨r, hr, hp.tail he⟩

/-- Going from owner to owner comes to an end. -/
theorem Acyclic.wellFoundedOn (ha : w.Acyclic) :
    {s | (w.controlOf s).state = .occupied}.WellFoundedOn (Relation.TransGen w.Edge) := by
  have hfinite : {s | (w.controlOf s).state = .occupied}.Finite := by
    refine (w.slots.map Prod.fst).finite_toSet.subset ?_
    intro s hs
    obtain ⟨slot, hf⟩ := Option.isSome_iff_exists.mp (find?_isSome_of_occupied hs)
    exact List.mem_map.mpr ⟨_, Table.mem_of_find?_eq_some hf, rfl⟩
  have hstrict : IsStrictOrder SlotId (Relation.TransGen w.Edge) :=
    { irrefl := ha, trans := fun _ _ _ h h' => h.trans h' }
  exact hfinite.wellFoundedOn

/-- There is no cycle if every handle in a slot is empty or leads to one and the same other slot. -/
theorem acyclic_of_slots (h : ∀ e ∈ w.slots, ∀ g ∈ e.2.nested?, g.slot = none ∨ e.1 ≠ r ∧ g.slot = some r) :
    w.Acyclic := by
  have hedge : ∀ {a b}, w.Edge a b → a ≠ r ∧ b = r := by
    rintro a b ⟨g, hn, hslot⟩
    rw [nestedIn_eq, Option.bind_eq_some_iff] at hn
    obtain ⟨slot, hf, hn⟩ := hn
    rcases h _ (Table.mem_of_find?_eq_some hf) g hn with hg | ⟨hne, hg⟩
    · rw [hg] at hslot
      cases hslot
    · exact ⟨hne, Option.some_inj.mp (hslot.symm.trans hg)⟩
  intro s hs
  obtain ⟨b, hfirst, -⟩ := Relation.TransGen.head'_iff.mp hs
  obtain ⟨a, -, hlast⟩ := Relation.TransGen.tail'_iff.mp hs
  exact (hedge hfirst).1 (hedge hlast).2

namespace Sound

theorem occupied_of_held (hw : w.Sound 0) (h : w.Held s) : (w.controlOf s).state = .occupied := by
  obtain ⟨h, hh, hslot⟩ := h
  exact hw.balanced_roots.occupied (Multiset.mem_add.mpr (.inl hh)) hslot

theorem occupied_of_edge (hw : w.Sound 0) (h : w.Edge a b) : (w.controlOf b).state = .occupied := by
  obtain ⟨h, hh, hslot⟩ := h
  have hmem := (mem_nested hw.balanced.distinct).mpr ⟨a, hh⟩
  exact hw.balanced_roots.occupied (Multiset.mem_add.mpr (.inr hmem)) hslot

theorem occupied_of_reached (hw : w.Sound 0) (h : w.Reached s) : (w.controlOf s).state = .occupied := by
  obtain ⟨r, hr, hp⟩ := h
  cases hp with
  | refl => exact hw.occupied_of_held hr
  | tail _ he => exact hw.occupied_of_edge he

theorem held_or_edge (hw : w.Sound 0) (ho : (w.controlOf s).state = .occupied) :
    w.Held s ∨ ∃ a, (w.controlOf a).state = .occupied ∧ w.Edge a s := by
  have hb := hw.balanced_roots
  have howner : ∃ family, 0 < owners (w.roots + w.nested) family s := by
    rcases (hb.owned s ho).alone with ⟨h1, -⟩ | ⟨-, hpos⟩
    · exact ⟨.unique, by omega⟩
    · exact ⟨.shared, hpos⟩
  obtain ⟨family, hpos⟩ := howner
  obtain ⟨h, hh, -, hslot⟩ := owners_pos_iff.mp hpos
  rcases Multiset.mem_add.mp hh with hroot | hnested
  · exact .inl ⟨h, hroot, hslot⟩
  · obtain ⟨a, ha⟩ := (mem_nested hb.distinct).mp hnested
    exact .inr ⟨a, (nestedIn_eq_some_iff.mp ha).1, h, ha, hslot⟩

theorem reached_of_occupied (hw : w.Sound 0) (ha : w.Acyclic) (ho : (w.controlOf s).state = .occupied) :
    w.Reached s := by
  -- induction along the edges: an owner comes before what it owns
  refine ha.wellFoundedOn.induction (P := w.Reached) ho ?_
  intro s hs ih
  rcases hw.held_or_edge hs with hheld | ⟨a, hao, he⟩
  · exact hheld.reached
  · exact (ih a hao (.single he)).edge he

theorem occupied_iff_reached (hw : w.Sound 0) (ha : w.Acyclic) (s : SlotId) :
    (w.controlOf s).state = .occupied ↔ w.Reached s :=
  ⟨hw.reached_of_occupied ha, hw.occupied_of_reached⟩

theorem accepts (hw : w.Sound 0) (he : (w.controlOf s).state = .empty) : w.Accepts s := by
  intro into family elem o throwing hadm hroom
  obtain ⟨hinto, hx, ho, -, hn⟩ := hadm
  refine (run_make_ends hw hinto hx ho hn throwing).mono ?_ ?_
  · exact fun answer w' h => h.2 ⟨he, hroom⟩
  · exact fun f w' h => h.2 ⟨he, hroom⟩

end Sound

end World

variable {w : World} {slots : Table SlotId Slot}

/-- While the ownership graph has no cycle, the occupied slots are those that are reached, a step destroys the values
of the slots that are no longer reached, and without handles of the program every slot is empty and accepts a value. -/
theorem occupied_iff_reached_of_acyclic (hs : AllEmpty slots) (hr : Reachable slots w) (ha : w.Acyclic) :
    (∀ s, (w.controlOf s).state = .occupied ↔ w.Reached s) ∧
    (∀ (st : HandleStep) (w' : World), st.Admissible w → st.Completes w w' → st.Undisturbed w w' → w'.Acyclic →
      ∀ s, (∃ t, Event.destructed s t ∈ w'.since w) ↔ w.Reached s ∧ ¬ w'.Reached s) ∧
    ((∀ h ∈ w.roots, h.slot = none) → ∀ s, (w.controlOf s).state = .empty ∧ w.Accepts s) := by
  obtain ⟨hw, hst⟩ := hr.sound hs
  refine ⟨hw.occupied_iff_reached ha, ?_, ?_⟩
  · intro st w' hadm hc hu ha' s
    obtain ⟨hw', hev⟩ := hc.sound hw hadm hu
    rw [(hev.slot s).destroys_iff, hw.occupied_iff_reached ha, ← hw'.occupied_iff_reached ha']
  · intro hroots s
    have hempty : (w.controlOf s).state = .empty := by
      refine (hst s).resolve_right fun ho => ?_
      obtain ⟨r, ⟨h, hh, hslot⟩, -⟩ := hw.reached_of_occupied ha ho
      rw [hroots h hh] at hslot
      cases hslot
    exact ⟨hempty, hw.accepts hempty⟩

/-- Without its head the linked pair has one slot that is reached, and the other one is empty. -/
theorem occupied_iff_reached_of_acyclic_linkedPair : AllEmpty twoSlots ∧ Reachable twoSlots linkedPair ∧
    linkedPair.Acyclic ∧ (HandleStep.destroy (.named "head")).Completes linkedPair tailOnly ∧ tailOnly.Acyclic ∧
    linkedPair.Reached (.numbered 1) ∧ ¬ tailOnly.Reached (.numbered 1) ∧
    (∀ s, (World.ofSlots twoSlots).Accepts s) := by
  have hpair : linkedPair.Acyclic := World.acyclic_of_slots (r := .numbered 0) (by decide)
  have htail : tailOnly.Acyclic := World.acyclic_of_slots (r := .numbered 0) (by decide)
  have hstart : (World.ofSlots twoSlots).Acyclic := World.acyclic_of_slots (r := .numbered 0) (by decide)
  obtain ⟨-, hstep, -⟩ := occupied_iff_reached_of_acyclic allEmpty_twoSlots linkedPair_reachable hpair
  obtain ⟨-, -, haccepts⟩ := occupied_iff_reached_of_acyclic allEmpty_twoSlots .start hstart
  obtain ⟨ha, hc, hu⟩ := destroy_head
  have hgone := (hstep _ _ ha hc hu htail (.numbered 1)).mp ⟨.single .snode, by decide⟩
  refine ⟨allEmpty_twoSlots, linkedPair_reachable, hpair, hc, htail, hgone.1, hgone.2, ?_⟩
  intro s
  refine (haccepts ?_ s).2
  intro h hh
  exact absurd hh (Multiset.notMem_zero h)

end SlotHandles
