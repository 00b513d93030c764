import SlotHandles.Ty.Basic

/-!
# Base parts

Where the base parts of an object lie.  A table of parts is coherent (`PartTable`): the parts of a part are listed where
the two offsets lead, and the parts of a value of the catalogue are all different and begin inside of it.  From this
alone follows that it makes no difference whether an address is moved to a part at once or in steps
(`PartTable.offset?_trans`).
-/

namespace SlotHandles

/-- Size and alignment of a type in bytes. -/
structure Layout where
  size : Nat
  alignment : Nat
  deriving DecidableEq, Repr

namespace Kind

def layout : Kind → Layout
  | .int | .tracked | .square | .ticker => ⟨4, 4⟩
  | .u8 => ⟨1, 1⟩
  | .wide | .base | .derived | .diff | .deep | .left | .right | .rectangle | .gadget => ⟨16, 8⟩
  | .big => ⟨32, 32⟩
  | .string | .both => ⟨32, 8⟩
  | .circle => ⟨8, 8⟩
  | .picky | .vault => ⟨8, 4⟩
  | .probe => ⟨48, 8⟩
  | .node | .snode => ⟨24, 8⟩

theorem size_pos (k : Kind) : 0 < k.layout.size := by cases k <;> decide

end Kind

/-- A base part inside an object: its type, its offset in bytes, and whether it is accessible. -/
structure BasePart where
  part : Leaf
  offset : Nat
  accessible : Bool
  deriving DecidableEq, Repr

/-- A part of a part, as a part of the whole object. -/
def BasePart.within (b a : BasePart) : BasePart := ⟨b.part, a.offset + b.offset, a.accessible && b.accessible⟩

/-- The proper base parts of the objects of every type, repeated parts once for each occurrence. -/
structure PartTable where
  parts : Leaf → List BasePart
  proper : ∀ l, ∀ a ∈ parts l, a.part ≠ l
  closed : ∀ l, ∀ a ∈ parts l, ∀ b ∈ parts a.part, b.within a ∈ parts l
  distinct : ∀ k, ((parts (.kind k)).map BasePart.part).Nodup
  inside : ∀ k, ∀ a ∈ parts (.kind k), a.offset < k.layout.size

namespace PartTable

variable {T : PartTable} {kind : Kind} {source target a b : Leaf} {k m : Nat}

/-- The offset of the part of type `target`, if there is exactly one and it is accessible. -/
def offset? (T : PartTable) (source target : Leaf) : Option Nat :=
  if source = target then some 0
  else match (T.parts source).filter (·.part = target) with
    | [b] => if b.accessible then some b.offset else none
    | _ => none

theorem offset?_self (T : PartTable) (source : Leaf) : T.offset? source source = some 0 := if_pos rfl

theorem mem_of_offset? (hne : source ≠ target) (h : T.offset? source target = some k) :
    ⟨target, k, true⟩ ∈ T.parts source := by
  unfold offset? at h
  rw [if_neg hne] at h
  split at h
  · next b hb =>
    split at h
    · next hacc =>
      cases h
      have hmem : b ∈ (T.parts source).filter (·.part = target) := by rw [hb]; exact List.mem_singleton_self b
      obtain ⟨hmem, hpart⟩ := List.mem_filter.mp hmem
      obtain rfl : b.part = target := of_decide_eq_true hpart
      rwa [← hacc]
    · cases h
  · cases h

theorem filter_part {b : BasePart} {l : List BasePart} (hn : (l.map BasePart.part).Nodup) (h : b ∈ l) :
    l.filter (·.part = b.part) = [b] := by
  induction l with
  | nil => cases h
  | cons a l ih =>
    rw [List.map_cons, List.nodup_cons] at hn
    rcases List.mem_cons.mp h with rfl | h
    · have hrest : l.filter (·.part = b.part) = [] := by
        rw [List.filter_eq_nil_iff]
        intro x hx hpart
        exact hn.1 (List.mem_map.mpr ⟨x, hx, of_decide_eq_true hpart⟩)
      rw [List.filter_cons_of_pos (by simp), hrest]
    · have hne : a.part ≠ b.part := fun he => hn.1 (he ▸ List.mem_map_of_mem h)
      rw [List.filter_cons_of_neg (by simpa using hne), ih hn.2 h]

/-- An accessible part of a value of the catalogue is the only one of its type. -/
theorem offset?_of_mem (h : ⟨target, k, true⟩ ∈ T.parts (.kind kind)) : T.offset? (.kind kind) target = some k := by
  unfold offset?
  rw [if_neg (T.proper _ _ h).symm, filter_part (T.distinct kind) h]
  rfl

/-- A part of a part of a catalogue value is a part of the value, where the two offsets lead. -/
theorem offset?_trans (h : T.offset? (.kind kind) a = some k) (h' : T.offset? a b = some m) :
    T.offset? (.kind kind) b = some (k + m) := by
  by_cases ha : Leaf.kind kind = a
  · subst ha
    rw [offset?_self] at h
    cases h
    rwa [Nat.zero_add]
  by_cases hb : a = b
  · subst hb
    rw [offset?_self] at h'
    cases h'
    rwa [Nat.add_zero]
  exact offset?_of_mem (T.closed _ _ (mem_of_offset? ha h) _ (mem_of_offset? hb h'))

theorem offset?_lt_size (h : T.offset? (.kind kind) target = some k) : k < kind.layout.size := by
  by_cases he : Leaf.kind kind = target
  · subst he
    rw [offset?_self] at h
    cases h
    exact kind.size_pos
  · exact T.inside kind _ (mem_of_offset? he h)

end PartTable

namespace Leaf

def baseParts : Leaf → List BasePart
  | .kind .derived | .kind .diff | .twiceA | .twiceB => [⟨.kind .base, 0, true⟩]
  | .kind .deep => [⟨.kind .derived, 0, true⟩, ⟨.kind .base, 0, true⟩]
  | .kind .both => [⟨.kind .left, 0, true⟩, ⟨.kind .right, 16, true⟩]
  | .hidden => [⟨.kind .base, 0, false⟩]
  | .twice => [⟨.twiceA, 0, true⟩, ⟨.twiceB, 16, true⟩, ⟨.kind .base, 0, true⟩, ⟨.kind .base, 16, true⟩]
  | _ => []

end Leaf

/-- The parts of the values of the catalogue, and of the types that only occur in questions about conversions. -/
def PartTable.catalogue : PartTable where
  parts := Leaf.baseParts
  proper l := by
    cases l with
    | kind k => cases k <;> decide
    | _ => decide
  closed l := by
    cases l with
    | kind k => cases k <;> decide
    | _ => decide
  distinct k := by cases k <;> decide
  inside k := by cases k <;> decide

/-- The offset of the part of type `target`, if there is exactly one and it is accessible. -/
def Leaf.partOffset? (source target : Leaf) : Option Nat := PartTable.catalogue.offset? source target

end SlotHandles
