import SlotHandles.Capacity
import SlotHandles.Proofs.Building

/-!
# The shape of a slot and the types that fit

A shape is judged three times, and each time by other means: when it is chosen or declared, when a type is checked
against it before there is an address, and when a value is built and the address is known.

The slot for a list of types is as large as the largest of them and aligned like the one with the strictest alignment.
Alignments are powers of two, so the greatest one is a multiple of each, and so is every address at which storage of the
shape may begin: the three judgements agree (`listed_types_fit`).

A shape may also be declared in words of 64 bits.  The check that its alignment has at most one bit set lets zero pass,
and zero is a multiple of every alignment, while storage without an alignment may begin anywhere.  So the judgements
agree for every alignment but zero, and for zero the address decides alone (`accepted_types_fit_unless_unaligned`).
-/

namespace SlotHandles

open World

/-- Of two powers of two the greater one is a multiple of the other. -/
theorem dvd_of_isPowerOfTwo {a b : Nat} (ha : a.isPowerOfTwo) (hb : b.isPowerOfTwo) (h : a ≤ b) : a ∣ b := by
  obtain ⟨i, rfl⟩ := ha
  obtain ⟨j, rfl⟩ := hb
  exact pow_dvd_pow 2 ((Nat.pow_le_pow_iff_right (by decide)).mp h)

theorem ControlBlock.hasRoom_iff_dvd {c : ControlBlock} {size alignment : Nat} :
    c.hasRoom size alignment ↔ size ≤ c.capacity ∧ alignment ∣ c.address := by
  simp [hasRoom, Nat.dvd_iff_mod_eq_zero]

namespace SlotShape

variable {shape : SlotShape} {first l : Layout} {rest : List Layout}

/-- The shape that a layout by itself asks for. -/
def ofLayout (l : Layout) : SlotShape := ⟨l.size, l.alignment⟩

/-- The shape with room for one layout more. -/
def widen (shape : SlotShape) (l : Layout) : SlotShape := ⟨max shape.capacity l.size, max shape.alignment l.alignment⟩

theorem holding_eq (first : Layout) (rest : List Layout) : holding first rest = rest.foldl widen (ofLayout first) := rfl

theorem accepts_iff : shape.accepts l ↔ l.size ≤ shape.capacity ∧ l.alignment ∣ shape.alignment := by
  simp [accepts, Nat.dvd_iff_mod_eq_zero]

theorem accepts_ofLayout (l : Layout) : (ofLayout l).accepts l := accepts_iff.mpr ⟨le_rfl, dvd_rfl⟩

theorem isPowerOfTwo_widen (hs : shape.alignment.isPowerOfTwo) (hl : l.alignment.isPowerOfTwo) :
    (shape.widen l).alignment.isPowerOfTwo := by
  unfold widen
  dsimp only
  rcases max_choice shape.alignment l.alignment with h | h
  · rw [h]
    exact hs
  · rw [h]
    exact hl

/-- What a shape accepted it accepts when it is widened. -/
theorem accepts_widen_of_accepts {m : Layout} (h : shape.accepts m) (hs : shape.alignment.isPowerOfTwo)
    (hl : l.alignment.isPowerOfTwo) : (shape.widen l).accepts m := by
  obtain ⟨hsize, halign⟩ := accepts_iff.mp h
  refine accepts_iff.mpr ⟨hsize.trans (le_max_left ..), halign.trans ?_⟩
  exact dvd_of_isPowerOfTwo hs (isPowerOfTwo_widen hs hl) (le_max_left ..)

theorem accepts_widen (hs : shape.alignment.isPowerOfTwo) (hl : l.alignment.isPowerOfTwo) :
    (shape.widen l).accepts l :=
  accepts_iff.mpr ⟨le_max_right .., dvd_of_isPowerOfTwo hl (isPowerOfTwo_widen hs hl) (le_max_right ..)⟩

/-- A shape that was widened along a list accepts all layouts of the list, and what it accepted before. -/
theorem foldl_widen (hs : shape.alignment.isPowerOfTwo) (hrest : ∀ l ∈ rest, l.alignment.isPowerOfTwo) :
    (rest.foldl widen shape).alignment.isPowerOfTwo ∧
      (∀ l, shape.accepts l → (rest.foldl widen shape).accepts l) ∧
      ∀ l ∈ rest, (rest.foldl widen shape).accepts l := by
  induction rest generalizing shape with
  | nil => exact ⟨hs, fun _ h => h, by simp⟩
  | cons m rest ih =>
    have hm := hrest m List.mem_cons_self
    obtain ⟨hpow, hkeeps, hall⟩ := ih (isPowerOfTwo_widen hs hm) fun l hl => hrest l (List.mem_cons_of_mem m hl)
    refine ⟨hpow, fun l h => hkeeps l (accepts_widen_of_accepts h hs hm), ?_⟩
    intro l hl
    rcases List.mem_cons.mp hl with rfl | hl
    · exact hkeeps l (accepts_widen hs hm)
    · exact hall l hl

theorem isPowerOfTwo_holding (hp : ∀ l ∈ first :: rest, l.alignment.isPowerOfTwo) :
    (holding first rest).alignment.isPowerOfTwo := by
  have hfirst : (ofLayout first).alignment.isPowerOfTwo := hp first List.mem_cons_self
  rw [holding_eq]
  exact (foldl_widen hfirst fun l hl => hp l (List.mem_cons_of_mem first hl)).1

theorem accepts_holding (hp : ∀ l ∈ first :: rest, l.alignment.isPowerOfTwo) (hl : l ∈ first :: rest) :
    (holding first rest).accepts l := by
  have hfirst : (ofLayout first).alignment.isPowerOfTwo := hp first List.mem_cons_self
  obtain ⟨-, hkeeps, hall⟩ := foldl_widen hfirst fun l hl => hp l (List.mem_cons_of_mem first hl)
  rw [holding_eq]
  rcases List.mem_cons.mp hl with rfl | hl
  · exact hkeeps l (accepts_ofLayout l)
  · exact hall l hl

/-- A shape is admissible exactly if it has storage and its alignment is zero or a power of two. -/
theorem admissible_iff : shape.admissible ↔
    0 < shape.capacity ∧ (shape.alignment = 0 ∨ shape.alignment.isPowerOfTwo) := by
  unfold admissible
  rw [Bool.and_eq_true, decide_eq_true_eq, decide_eq_true_eq]
  by_cases h0 : shape.alignment = 0
  · simp [h0]
  · rw [Nat.and_sub_one_eq_zero_iff_isPowerOfTwo h0, or_iff_right h0]

theorem permits_iff {address : Nat} : shape.permits address ↔ shape.alignment = 0 ∨ shape.alignment ∣ address := by
  simp [permits, Nat.dvd_iff_mod_eq_zero]

/-- Storage that begins at a multiple of the alignment has room for what the shape accepts. -/
theorem hasRoom_of_accepts {c : ControlBlock} (h : shape.accepts l) (hc : c.capacity = shape.capacity)
    (ha : c.address % shape.alignment = 0) : c.hasRoom l.size l.alignment := by
  obtain ⟨hsize, halign⟩ := accepts_iff.mp h
  exact ControlBlock.hasRoom_iff_dvd.mpr ⟨hc ▸ hsize, halign.trans (Nat.dvd_of_mod_eq_zero ha)⟩

/-- Where storage of the shape may begin there is room for what the shape accepts, unless the shape asks for no
alignment and the storage happens to begin at an address that does not suit the value. -/
theorem hasRoom_iff_of_permits {c : ControlBlock} (h : shape.accepts l) (hc : c.capacity = shape.capacity)
    (ha : shape.permits c.address) : c.hasRoom l.size l.alignment ↔ shape.alignment ≠ 0 ∨ l.alignment ∣ c.address := by
  constructor
  · exact fun hroom => .inr (ControlBlock.hasRoom_iff_dvd.mp hroom).2
  · rintro (h0 | hdvd)
    · exact hasRoom_of_accepts h hc (Nat.mod_eq_zero_of_dvd ((permits_iff.mp ha).resolve_left h0))
    · exact ControlBlock.hasRoom_iff_dvd.mpr ⟨hc ▸ (accepts_iff.mp h).1, hdvd⟩

/-- The shape whose capacity and alignment are given as words of 64 bits. -/
def ofWords (capacity alignment : UInt64) : SlotShape := ⟨capacity.toNat, alignment.toNat⟩

/-- The check of a shape is the same on words, where one less than zero is the greatest word. -/
theorem admissible_ofWords {capacity alignment : UInt64} :
    (ofWords capacity alignment).admissible ↔ 0 < capacity ∧ alignment &&& (alignment - 1) = 0 := by
  have hbits : (alignment &&& (alignment - 1)).toNat = alignment.toNat &&& (alignment.toNat - 1) := by
    rw [UInt64.toNat_and]
    by_cases h0 : alignment = 0
    · rw [h0, UInt64.toNat_zero, Nat.zero_and, Nat.zero_and]
    · have hpos : 0 < alignment.toNat := UInt64.lt_iff_toNat_lt.mp (UInt64.pos_iff_ne_zero.mpr h0)
      have hone : 1 ≤ alignment := UInt64.le_iff_toNat_le.mpr (UInt64.toNat_one ▸ hpos)
      rw [UInt64.toNat_sub_of_le _ _ hone, UInt64.toNat_one]
  unfold admissible
  rw [Bool.and_eq_true, decide_eq_true_eq, decide_eq_true_eq, UInt64.lt_iff_toNat_lt, ← UInt64.toNat_inj, hbits]
  rfl

end SlotShape

/-! ### Building a value in a slot -/

variable {w : World} {s : SlotId} {l : Layout} {o : Origin}

theorem claim_of_hasRoom (he : (w.controlOf s).state = .empty) (hroom : (w.controlOf s).hasRoom l.size l.alignment) :
    claim s l w = .ok (.ok ()) (w.setControl s { w.controlOf s with state := .constructing }) := by
  have hclaim := onControl_ok ((ControlBlock.tryClaim_apply (w.controlOf s)).trans (if_pos he))
  unfold claim
  rw [bind_of_ok (controlNow_apply ..), if_neg (by simp [hroom]), bind_of_ok hclaim, if_pos rfl]
  rfl

/-- Whatever an action does, it ends. -/
theorem ends_trivial {α : Type} (a : Act α) (w : World) : Ends a w (fun _ _ => True) fun _ _ => True := by
  unfold Ends
  split <;> trivial

/-- In an empty slot with room for the value nothing is refused. -/
theorem make_of_hasRoom (family : Family) (elem : Ty) (he : (w.controlOf s).state = .empty)
    (hroom : (w.controlOf s).hasRoom o.type.layout.size o.type.layout.alignment) :
    Ends (make family elem s o) w (fun r _ => ∃ made, r = .ok made) (fun _ _ => True) := by
  have hplaced : Ends (placeValue s o) w (fun r _ => ∃ rest, r = .ok rest) (fun _ _ => True) := by
    unfold placeValue
    rw [ends_bind, ends_of_ok (claim_of_hasRoom he hroom)]
    dsimp only
    rw [ends_bind]
    refine (ends_trivial ..).mono (fun built u _ => ?_) fun _ _ h => h
    rw [ends_bind]
    exact (ends_trivial ..).mono (fun _ _ _ => ⟨built.2, rfl⟩) fun _ _ h => h
  unfold make
  rw [ends_bind]
  refine hplaced.mono ?_ fun _ _ h => h
  rintro _ u ⟨rest, rfl⟩
  dsimp only
  rw [ends_bind]
  exact (ends_trivial ..).mono (fun h _ _ => ⟨⟨h, rest⟩, rfl⟩) fun _ _ h => h

/-- Without room for the value a slot refuses it in any state, and nothing happens. -/
theorem make_of_not_hasRoom (family : Family) (elem : Ty)
    (hroom : ¬ (w.controlOf s).hasRoom o.type.layout.size o.type.layout.alignment) :
    make family elem s o w = .ok (.error .capacityExceeded) w := by
  have hclaim : claim s o.type.layout w = .ok (.error .capacityExceeded) w := by
    unfold claim
    rw [bind_of_ok (controlNow_apply ..), if_pos (by simpa using hroom)]
    rfl
  have hplaced : placeValue s o w = .ok (.error .capacityExceeded) w := by
    unfold placeValue
    rw [bind_of_ok hclaim]
    rfl
  unfold make
  rw [bind_of_ok hplaced]
  rfl

/-- **A slot for any one of several types.**  Their shape has a power of two as its alignment, it exists if one of them
has a size, and it accepts each of them.  Storage of the shape has room for each of them wherever it begins, so that an
empty slot over such storage is claimed, and building a value of any of them there is never refused. -/
theorem listed_types_fit (first : Layout) (rest : List Layout)
    (hp : ∀ l ∈ first :: rest, l.alignment.isPowerOfTwo) :
    (SlotShape.holding first rest).alignment.isPowerOfTwo ∧
    ((∃ l ∈ first :: rest, 0 < l.size) → (SlotShape.holding first rest).admissible) ∧
    ∀ l ∈ first :: rest, (SlotShape.holding first rest).accepts l ∧
      ∀ c : ControlBlock, c.capacity = (SlotShape.holding first rest).capacity →
        c.address % (SlotShape.holding first rest).alignment = 0 → c.hasRoom l.size l.alignment ∧
        ∀ (w : World) (s : SlotId), w.controlOf s = c → c.state = .empty →
          claim s l w = .ok (.ok ()) (w.setControl s { c with state := .constructing }) ∧
          ∀ (family : Family) (elem : Ty) (o : Origin), o.type.layout = l →
            ∀ r w', make family elem s o w = .ok r w' → ∃ made, r = .ok made := by
  have hpow := SlotShape.isPowerOfTwo_holding hp
  refine ⟨hpow, ?_, fun l hl => ?_⟩
  · rintro ⟨l, hl, hsize⟩
    have hfits := (SlotShape.accepts_iff.mp (SlotShape.accepts_holding hp hl)).1
    exact SlotShape.admissible_iff.mpr ⟨hsize.trans_le hfits, .inr hpow⟩
  have haccepts := SlotShape.accepts_holding hp hl
  refine ⟨haccepts, fun c hc ha => ?_⟩
  have hroom := SlotShape.hasRoom_of_accepts haccepts hc ha
  refine ⟨hroom, ?_⟩
  rintro w s rfl he
  refine ⟨claim_of_hasRoom he hroom, ?_⟩
  rintro family elem o rfl r w' hrun
  exact (make_of_hasRoom family elem he hroom).ok hrun

/-- The strictest of the three alignments is the third one's, and it is also the largest of them. -/
theorem listed_types_fit_tracked_wide_big :
    (SlotShape.holding Kind.tracked.layout [Kind.wide.layout, Kind.big.layout]).admissible ∧
    ∀ l ∈ [Kind.tracked.layout, Kind.wide.layout, Kind.big.layout],
      ((SlotShape.holding Kind.tracked.layout [Kind.wide.layout, Kind.big.layout]).control 96).hasRoom l.size
        l.alignment := by
  have hp : ∀ l ∈ [Kind.tracked.layout, Kind.wide.layout, Kind.big.layout], l.alignment.isPowerOfTwo := by
    intro l hl
    simp only [List.mem_cons, List.not_mem_nil, or_false] at hl
    rcases hl with rfl | rfl | rfl
    · exact ⟨2, rfl⟩
    · exact ⟨3, rfl⟩
    · exact ⟨5, rfl⟩
  obtain ⟨-, hadmissible, hall⟩ := listed_types_fit _ _ hp
  refine ⟨hadmissible ⟨_, List.mem_cons_self, by decide⟩, fun l hl => ?_⟩
  exact ((hall l hl).2 _ rfl rfl).1

/-- **A slot of a declared shape.**  The alignment of a shape that may be declared is zero or a power of two.  If it is
not zero, there is room for each type that the shape accepts wherever storage of the shape may begin, and an empty slot
over such storage never refuses to build a value of the type.  If it is zero, there is room only if the storage happens
to begin at a multiple of the type's own alignment, and otherwise the slot refuses. -/
theorem accepted_types_fit_unless_unaligned {capacity alignment : UInt64} (hcapacity : 0 < capacity)
    (halignment : alignment &&& (alignment - 1) = 0) :
    (SlotShape.ofWords capacity alignment).admissible ∧ (alignment = 0 ∨ alignment.toNat.isPowerOfTwo) ∧
    ∀ l : Layout, (SlotShape.ofWords capacity alignment).accepts l → ∀ c : ControlBlock, c.capacity = capacity.toNat →
      (SlotShape.ofWords capacity alignment).permits c.address →
      (c.hasRoom l.size l.alignment ↔ alignment ≠ 0 ∨ l.alignment ∣ c.address) ∧
      ∀ (w : World) (s : SlotId), w.controlOf s = c → c.state = .empty →
        ∀ (family : Family) (elem : Ty) (o : Origin), o.type.layout = l →
          (alignment ≠ 0 ∨ l.alignment ∣ c.address →
            claim s l w = .ok (.ok ()) (w.setControl s { c with state := .constructing }) ∧
            ∀ r w', make family elem s o w = .ok r w' → ∃ made, r = .ok made) ∧
          (alignment = 0 → ¬ l.alignment ∣ c.address → make family elem s o w = .ok (.error .capacityExceeded) w) := by
  have hadmissible := SlotShape.admissible_ofWords.mpr ⟨hcapacity, halignment⟩
  have hword : (SlotShape.ofWords capacity alignment).alignment = 0 ↔ alignment = 0 := UInt64.toNat_inj (b := 0)
  refine ⟨hadmissible, (SlotShape.admissible_iff.mp hadmissible).2.imp_left hword.mp, fun l haccepts c hc ha => ?_⟩
  have hroom := (SlotShape.hasRoom_iff_of_permits haccepts hc ha).trans (or_congr_left hword.not)
  refine ⟨hroom, ?_⟩
  rintro w s rfl he family elem o rfl
  refine ⟨fun hfits => ?_, fun h0 hunsuited => ?_⟩
  · have hfree := hroom.mpr hfits
    exact ⟨claim_of_hasRoom he hfree, fun r w' hrun => (make_of_hasRoom family elem he hfree).ok hrun⟩
  · have hfull := hroom.not.mpr (not_or.mpr ⟨not_not.mpr h0, hunsuited⟩)
    exact make_of_not_hasRoom family elem hfull

/-- One empty slot of the shape, with storage at the address. -/
def ofShape (shape : SlotShape) (address : Nat) : World := ofSlots [(.numbered 0, ⟨shape.control address, none⟩)]

/-- A value of the type with the strictest alignment. -/
def bigOrigin : Origin := .arguments (Seed.plain (.big 1))

/-- With an alignment the type is built, and without one it is refused at an address that does not suit it. -/
theorem accepted_types_fit_unless_unaligned_big :
    (0 : UInt64) < 48 ∧ (32 : UInt64) &&& (32 - 1) = 0 ∧ (0 : UInt64) &&& (0 - 1) = 0 ∧
    (∃ made w', make .unique (.ofKind .big) (.numbered 0) bigOrigin (ofShape (.ofWords 48 32) 96) =
      .ok (.ok made) w') ∧
    make .unique (.ofKind .big) (.numbered 0) bigOrigin (ofShape (.ofWords 48 0) 40) =
      .ok (.error .capacityExceeded) (ofShape (.ofWords 48 0) 40) := by
  have hcapacity : (0 : UInt64) < 48 := by decide
  have haligned : (32 : UInt64) &&& (32 - 1) = 0 := by decide
  have hunaligned : (0 : UInt64) &&& (0 - 1) = 0 := by decide
  refine ⟨hcapacity, haligned, hunaligned, ?_, ?_⟩
  · obtain ⟨-, -, hfit⟩ := accepted_types_fit_unless_unaligned hcapacity haligned
    have hbuilt := ((hfit Kind.big.layout rfl _ rfl rfl).2 (ofShape (.ofWords 48 32) 96) (.numbered 0) rfl rfl .unique
      (.ofKind .big) bigOrigin rfl).1 (.inl (by decide))
    obtain ⟨r, w', hrun⟩ : ∃ r w', make .unique (.ofKind .big) (.numbered 0) bigOrigin (ofShape (.ofWords 48 32) 96) =
      .ok r w' := ⟨_, _, rfl⟩
    obtain ⟨made, rfl⟩ := hbuilt.2 r w' hrun
    exact ⟨made, w', hrun⟩
  · obtain ⟨-, -, hfit⟩ := accepted_types_fit_unless_unaligned hcapacity hunaligned
    exact ((hfit Kind.big.layout rfl _ rfl rfl).2 (ofShape (.ofWords 48 0) 40) (.numbered 0) rfl rfl .unique
      (.ofKind .big) bigOrigin rfl).2 rfl (by decide)

/-- Zero passes for an alignment and for a multiple of 32, but storage at address 40 has no room for the type. -/
theorem accepted_type_refused_unaligned :
    (0 : UInt64) < 48 ∧ (0 : UInt64) &&& (0 - 1) = 0 ∧ (SlotShape.ofWords 48 0).admissible ∧
    0 < Kind.big.layout.size ∧ Kind.big.layout.alignment.isPowerOfTwo ∧
    (SlotShape.ofWords 48 0).accepts Kind.big.layout ∧ (SlotShape.ofWords 48 0).permits 40 ∧
    ((SlotShape.ofWords 48 0).control 40).hasRoom Kind.big.layout.size Kind.big.layout.alignment = false ∧
    make .unique (.ofKind .big) (.numbered 0) bigOrigin (ofShape (.ofWords 48 0) 40) =
      .ok (.error .capacityExceeded) (ofShape (.ofWords 48 0) 40) :=
  ⟨by decide, by decide, by decide, by decide, ⟨5, rfl⟩, by decide, by decide, by decide, rfl⟩

end SlotHandles
