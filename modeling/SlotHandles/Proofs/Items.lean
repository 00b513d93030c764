import SlotHandles.Proofs.Blocks

/-!
# Collections owned through blocks

A collection that is owned through handles of blocks is a list of items: a handle shows the length of the list and reads
the items, and a write sets one item of the list (`World.ShowsItems`).  Moving, copying, assigning and swapping handles
does nothing to it.  So after a run of such steps the list is the one at the start with all writes made to it, until the
last handle lets go and the items are destroyed from the last to the first (`ItemRun.outcome`).
-/

namespace SlotHandles

open World

/-! ### Lists of writes -/

/-- A write to an item. -/
structure ItemWrite where
  index : Nat
  value : Int32

/-- The items after some writes, the first write first.  What is written is a value of the item type. -/
def written (item : Item) (items : List Int32) : List ItemWrite → List Int32
  | [] => items
  | x :: writes => written item (items.set x.index (item.cut x.value)) writes

/-- The value that was last written to an item, if one was. -/
def lastWritten? (i : Nat) : List ItemWrite → Option Int32
  | [] => none
  | x :: writes => (lastWritten? i writes).or (if x.index = i then some x.value else none)

variable {w u x : World} {s t : SlotId} {p : Holder} {h : Handle} {item : Item} {items : List Int32}
  {writes : List ItemWrite} {M : Multiset Handle} {st : HandleStep} {slots : Table SlotId Slot}

theorem written_append (item : Item) (items : List Int32) (writes writes' : List ItemWrite) :
    written item items (writes ++ writes') = written item (written item items writes) writes' := by
  induction writes generalizing items with
  | nil => rfl
  | cons x writes ih => exact ih _

theorem length_written (item : Item) (items : List Int32) (writes : List ItemWrite) :
    (written item items writes).length = items.length := by
  induction writes generalizing items with
  | nil => rfl
  | cons x writes ih => rw [written, ih, List.length_set]

/-- An item is the last value written to it, or the one it was at the start. -/
theorem getElem?_written (item : Item) (items : List Int32) (writes : List ItemWrite) (i : Nat) :
    (written item items writes)[i]? = items[i]?.map ((lastWritten? i writes).map item.cut).getD := by
  induction writes generalizing items with
  | nil =>
    have hself : (none : Option Int32).getD = id := rfl
    rw [written, lastWritten?, Option.map_none, hself, Option.map_id_fun, id]
  | cons x writes ih =>
    rw [written, ih, lastWritten?, List.getElem?_set]
    by_cases hx : x.index = i
    · subst hx
      cases hi : items[x.index]? with
      | none => simp [List.getElem?_eq_none_iff.mp hi]
      | some n =>
        have hlt := (List.getElem?_eq_some_iff.mp hi).1
        cases lastWritten? x.index writes <;> simp [hlt]
    · simp [hx]

/-! ### Runs -/

/-- The write that the step makes to an item of the collection in the slot. -/
def HandleStep.writeIn? (st : HandleStep) (w : World) (s : SlotId) : Option ItemWrite :=
  match st with
  | .writeItem p i n => if (w.live? p).bind Handle.slot = some s then some ⟨i, n⟩ else none
  | _ => none

/-- A run of completed steps on block handles, with the writes that it makes in the slot.  No step builds a value
there. -/
inductive ItemRun (s : SlotId) : World → List ItemWrite → World → Prop
  | nil (w : World) : ItemRun s w [] w
  | cons {w x u : World} {st : HandleStep} {writes : List ItemWrite} (blocks : st.OnBlocks w s)
      (admissible : st.Admissible w) (completes : st.Completes w x) (later : ItemRun s x writes u) :
      ItemRun s w ((st.writeIn? w s).toList ++ writes) u

/-- What the items of a collection announce when they are destroyed, the last one first. -/
def Item.farewells (item : Item) (items : List Int32) : List Event :=
  match item with
  | .tracked => items.reverse.map .gone
  | .int | .constInt | .u8 => []

theorem parting_collection (item : Item) (items : List Int32) :
    (Value.collection item items).parting = item.farewells items := by
  cases item <;> rfl

/-- The slot holds the items, and no value was built or destroyed in it meanwhile. -/
structure World.Retains (w : World) (s : SlotId) (item : Item) (items : List Int32) (u : World) : Prop where
  holds : u.Holds s (.collection item items.length) (.collection item items)
  still : w.Still s u

/-- The slot is empty: the collection was destroyed once meanwhile, with the items it had then, and nothing else was
built or destroyed in the slot. -/
structure World.Discards (w : World) (s : SlotId) (item : Item) (items : List Int32) (u : World) : Prop where
  emptied : (u.controlOf s).state = .empty
  trace : ∃ before after, u.trace = w.trace ++ before ++
    .destructed s (.collection item items.length) :: item.farewells items ++ after ∧
    lifeOf s before = [] ∧ lifeOf s after = []

theorem World.Retains.along (h : w.Retains s item items x) {items' : List Int32} (h' : x.Retains s item items' u) :
    w.Retains s item items' u :=
  ⟨h'.holds, h.still.trans h'.still⟩

theorem World.Stays.retains (h : w.Stays s u)
    (hv : w.Holds s (.collection item items.length) (.collection item items)) : w.Retains s item items u :=
  ⟨h.holds hv, h.still⟩

theorem World.Retains.discards (h : w.Retains s item items x) {items' : List Int32} (h' : x.Discards s item items' u) :
    w.Discards s item items' u := by
  obtain ⟨es, htrace, hlife⟩ := h.still
  obtain ⟨before, after, htrace', hbefore, hafter⟩ := h'.trace
  refine ⟨h'.emptied, es ++ before, after, ?_, ?_, hafter⟩
  · rw [htrace', htrace, List.append_assoc w.trace]
  · rw [lifeOf_append, hlife, hbefore, List.append_nil]

namespace HandleStep

theorem writeIn?_of_ne (hn : ∀ p i n, st ≠ .writeItem p i n) (w : World) (s : SlotId) : st.writeIn? w s = none := by
  unfold writeIn?
  split
  · exact absurd rfl (hn _ _ _)
  · rfl

/-- A write through a handle sets an item in the slot of the handle, and does nothing to another slot. -/
theorem writeItem_retains {i : Nat} {n : Int32} (hw : w.Sound M) (ha : (writeItem p i n).Admissible w)
    (hc : (writeItem p i n).Completes w u) (hv : w.Holds s (.collection item items.length) (.collection item items)) :
    w.Retains s item (written item items ((writeItem p i n).writeIn? w s).toList) u := by
  obtain ⟨h, t, item', items', hl, ht, hholds, rfl⟩ := hw.completes_writeItem ha hc
  unfold writeIn?
  dsimp only
  rw [hl, Option.bind_some, ht]
  by_cases hts : t = s
  · subst hts
    obtain ⟨rfl, rfl⟩ : item' = item ∧ items' = items := by
      have hsame := hholds.2.symm.trans hv.2
      simpa using hsame
    rw [if_pos rfl]
    refine ⟨?_, still_of_trace_eq rfl t⟩
    rw [length_written]
    exact hv.set _
  · rw [if_neg (by simpa using hts)]
    refine ⟨⟨(typeIn_setStorage ..).trans hv.1, ?_⟩, still_of_trace_eq rfl s⟩
    exact (storageOf_setStorage_of_ne _ _ (Ne.symm hts)).trans hv.2

/-- A step makes its write to the collection in the slot, or destroys the collection. -/
theorem OnBlocks.retains (hb : st.OnBlocks w s) (hw : w.Sound M) (ha : st.Admissible w) (hc : st.Completes w u)
    (hv : w.Holds s (.collection item items.length) (.collection item items)) :
    w.Retains s item (written item items (st.writeIn? w s).toList) u ∨
      st.writeIn? w s = none ∧ w.Discards s item items u := by
  by_cases hwrite : ∃ p i n, st = .writeItem p i n
  · obtain ⟨p, i, n, rfl⟩ := hwrite
    exact .inl (writeItem_retains hw ha hc hv)
  have hn : ∀ p i n, st ≠ .writeItem p i n := fun p i n h => hwrite ⟨p, i, n, h⟩
  rw [writeIn?_of_ne hn]
  rcases hb.passes hw ha hc hn with hstays | ⟨v, hparts⟩
  · exact .inl (hstays.retains hv)
  · obtain rfl : .collection item items = v := Option.some_inj.mp (hv.2.symm.trans hparts.holds.2)
    refine .inr ⟨rfl, hparts.emptied, [], [], ?_, rfl, rfl⟩
    rw [hparts.trace, List.append_nil, List.append_nil, parting_collection]
    rfl

/-- In a slot that is not occupied a step does nothing. -/
theorem OnBlocks.idle (hb : st.OnBlocks w s) (hw : w.Sound M) (ha : st.Admissible w) (hc : st.Completes w u)
    (hs : (w.controlOf s).state ≠ .occupied) : st.writeIn? w s = none ∧ w.Stays s u := by
  by_cases hwrite : ∃ p i n, st = .writeItem p i n
  · obtain ⟨p, i, n, rfl⟩ := hwrite
    obtain ⟨h, t, item', items', hl, ht, hholds, rfl⟩ := hw.completes_writeItem ha hc
    have hts : t ≠ s := by
      rintro rfl
      exact hs (typeIn_eq_some_iff.mp hholds.1).1
    refine ⟨?_, ?_⟩
    · unfold writeIn?
      dsimp only
      rw [hl, Option.bind_some, ht, if_neg (by simpa using hts)]
    · exact ⟨by rw [controlOf_setStorage], typeIn_setStorage .., storageOf_setStorage_of_ne _ _ (Ne.symm hts),
        still_of_trace_eq rfl s⟩
  have hn : ∀ p i n, st ≠ .writeItem p i n := fun p i n h => hwrite ⟨p, i, n, h⟩
  refine ⟨writeIn?_of_ne hn w s, ?_⟩
  rcases hb.passes hw ha hc hn with hstays | ⟨v, hparts⟩
  · exact hstays
  · exact absurd (typeIn_eq_some_iff.mp hparts.holds.1).1 hs

end HandleStep

theorem ItemRun.attained (hr : Attained slots w) (hrun : ItemRun s w writes u) : Attained slots u := by
  induction hrun with
  | nil => exact hr
  | cons _ ha hc _ ih => exact ih (.step _ hr ha hc)

theorem ItemRun.idle (hs : AllEmpty slots) (hr : Attained slots w) (hrun : ItemRun s w writes u)
    (hidle : (w.controlOf s).state ≠ .occupied) : writes = [] ∧ w.Stays s u := by
  induction hrun with
  | nil w => exact ⟨rfl, rfl, rfl, rfl, still_of_trace_eq rfl s⟩
  | cons hb ha hc _ ih =>
    obtain ⟨⟨lost, hw⟩, -⟩ := hr.sound hs
    obtain ⟨hnone, hstays⟩ := hb.idle hw ha hc hidle
    obtain ⟨rfl, hlater⟩ := ih (.step _ hr ha hc) (hstays.state ▸ hidle)
    exact ⟨by rw [hnone]; rfl, hstays.trans hlater⟩

theorem World.Discards.stays (h : w.Discards s item items x) (h' : x.Stays s u) : w.Discards s item items u := by
  obtain ⟨before, after, htrace, hbefore, hafter⟩ := h.trace
  obtain ⟨es, htrace', hlife⟩ := h'.still
  refine ⟨h'.state.trans h.emptied, before, after ++ es, ?_, hbefore, ?_⟩
  · rw [htrace', htrace]
    simp only [List.append_assoc, List.cons_append]
  · rw [lifeOf_append, hafter, hlife, List.append_nil]

/-- After a run the slot holds the items with all writes made to them, unless these were destroyed on the way. -/
theorem ItemRun.outcome (hs : AllEmpty slots) (hr : Attained slots w) (hrun : ItemRun s w writes u)
    (hv : w.Holds s (.collection item items.length) (.collection item items)) :
    w.Retains s item (written item items writes) u ∨ w.Discards s item (written item items writes) u := by
  induction hrun generalizing items with
  | nil w => exact .inl ⟨hv, still_of_trace_eq rfl s⟩
  | cons hb ha hc hlater ih =>
    obtain ⟨⟨lost, hw⟩, -⟩ := hr.sound hs
    have hr' := Attained.step _ hr ha hc
    rcases hb.retains hw ha hc hv with hretains | ⟨hnone, hdiscards⟩
    · rw [written_append]
      exact (ih hr' hretains.holds).imp hretains.along hretains.discards
    · -- nothing is written to a slot without a value
      obtain ⟨rfl, hstays⟩ := hlater.idle hs hr' (by rw [hdiscards.emptied]; exact Occupancy.noConfusion)
      rw [hnone]
      exact .inr (hdiscards.stays hstays)

/-! ### Handles -/

/-- What the handle of a block at the place shows of the items in its slot, what it does to them, and what becomes of
them when it lets go. -/
structure World.ShowsItems (w : World) (p : Holder) (h : Handle) (s : SlotId) (item : Item) (items : List Int32) :
    Prop where
  extent : h.ref.extent = items.length
  read : ∀ i (hi : i < items.length), readItem h i w = .ok items[i] w
  write : ∀ i n, i < items.length →
    writeItem h i n w = .ok () (w.setStorage s (.collection item (items.set i (item.cut n))))
  beyond : ∀ i, items.length ≤ i → readItem h i w = .error (.violation (.indexOutOfRange i items.length)) w ∧
    ∀ n, writeItem h i n w = .error (.violation (.indexOutOfRange i items.length)) w
  whole : ∀ elem : Ty, elem.identity = (StoredType.collection item items.length).ty → w.CastsBack p h s elem ∧
    ∀ g u, castByMove elem p w = .ok g u ∨ h.family = .shared ∧ castByCopy elem p w = .ok g u →
      dereference g u = .ok (.collection item items) u
  last : h.IsLast (w.controlOf s) → ∀ st : HandleStep, st = .reset p ∨ st = .destroy p → ∃ u, st.run w = .ok .done u ∧
    (u.controlOf s).state = .empty ∧
    u.trace = w.trace ++ .destructed s (.collection item items.length) :: item.farewells items
  notLast : ¬ h.IsLast (w.controlOf s) → ∀ st : HandleStep, st = .reset p ∨ st = .destroy p →
    ∃ u, st.run w = .ok .done u ∧ w.Retains s item items u

theorem dereference_restored {v : Value} {type : StoredType} (hv : u.Holds s type v) (h : Handle) (elem : Ty) :
    dereference (h.restored elem s) u = .ok v u := by
  have ho := (typeIn_eq_some_iff.mp hv.1).1
  have hcheck : checkAccess (h.restored elem s) u = .ok () u := by
    unfold checkAccess Handle.restored
    dsimp only
    rw [bind_of_ok (controlNow_apply ..), if_neg (by simp [ho])]
    rfl
  exact (bind_of_ok hcheck).trans (elementOf_apply (k := 0) rfl hv.2)

theorem World.Holds.countedUp {v : Value} {type : StoredType} (hv : w.Holds s type v) :
    (w.countedUp s).Holds s type v := by
  have hx := find?_isSome_of_occupied (typeIn_eq_some_iff.mp hv.1).1
  exact ⟨(state_typeIn_recount hx _ s).2.trans hv.1, (storageOf_setControl ..).trans hv.2⟩

namespace World.Sound

/-- Whatever a block handle is cast to, the whole collection is found through it. -/
theorem castsBack_items (hw : w.Sound M) (hl : w.live? p = some h) (hb : h.elem.isBlock) (hs : h.slot = some s)
    (hv : w.Holds s (.collection item items.length) (.collection item items)) {elem : Ty}
    (he : elem.identity = (StoredType.collection item items.length).ty) :
    w.CastsBack p h s elem ∧
      ∀ g u, castByMove elem p w = .ok g u ∨ h.family = .shared ∧ castByCopy elem p w = .ok g u →
        dereference g u = .ok (.collection item items) u := by
  have hback := hw.castsBack hl hs hv.1 he
  refine ⟨hback, fun g u hrun => ?_⟩
  rcases hrun with hrun | ⟨hf, hrun⟩
  · rw [hback.moved] at hrun
    cases hrun
    exact dereference_restored ((handsOn_setHandle (hw.isOwn_of_isBlock hl hb) w _).steady.holds hv) h elem
  · obtain ⟨rfl, rfl, -⟩ := (hback.copied hf).ok hrun
    exact dereference_restored hv.countedUp h elem

theorem showsItems (hw : w.Sound M) (hl : w.live? p = some h) (hb : h.elem.isBlock) (hs : h.slot = some s)
    (hv : w.Holds s (.collection item items.length) (.collection item items)) : w.ShowsItems p h s item items := by
  obtain ⟨item', items', hholds, href⟩ := hw.holds_of_isBlock hl hb hs
  obtain ⟨rfl, rfl⟩ : item' = item ∧ items' = items := by
    have hsame := hholds.2.symm.trans hv.2
    simpa using hsame
  have hextent : h.ref.extent = items'.length := by rw [href]; rfl
  have hr := hw.refersIn_of_live hl
  refine ⟨hextent, fun i hi => ?_, fun i n hi => ?_, fun i hi => ?_, fun elem he => hw.castsBack_items hl hb hs hv he,
    fun hlast st hst => ?_, fun hlast st hst => ?_⟩
  · rw [readItem_of_lt hw hr hb hs hv.2 (hextent ▸ hi)]
    simp [Value.item?, hi]
  · exact writeItem_of_lt hw hr hb hs hv.2 (hextent ▸ hi) n
  · rw [← hextent] at hi ⊢
    exact ⟨readItem_of_extent_le hr hs hi, writeItem_of_extent_le hr hs hi⟩
  · obtain ⟨x, hx, hrun⟩ := hw.run_letsGo hl hb hst
    obtain ⟨u, v, hrelease, hparts, -⟩ := release_of_last hw hl hb hs hlast hx
    obtain rfl := Option.some_inj.mp ((hx.steady.holds hv).2.symm.trans hparts.holds.2)
    refine ⟨u, hrun u hrelease, hparts.emptied, ?_⟩
    rw [hparts.trace, hx.trace, parting_collection]
    rfl
  · obtain ⟨x, hx, hrun⟩ := hw.run_letsGo hl hb hst
    obtain ⟨u, hrelease, -, hstays⟩ := release_of_not_last hw hl hs hlast hx
    exact ⟨u, hrun u hrelease, (hstays s).holds (hx.steady.holds hv),
      (still_of_trace_eq hx.trace s).trans (hstays s).still⟩

end World.Sound

/-! ### Handing on -/

namespace HandleStep

/-- The places that the step moves a handle from and to. -/
def moves? : HandleStep → Option (Holder × Holder)
  | .constructByMove into _ p => some (p, into)
  | .assignByMove q p => if q = p then none else some (p, q)
  | _ => none

/-- The places that the step copies a handle from and to. -/
def copies? : HandleStep → Option (Holder × Holder)
  | .constructByCopy into _ p => some (p, into)
  | .assignByCopy q p => some (p, q)
  | _ => none

end HandleStep

/-- However the handle at the place is handed on, its slot and its extent stay together, and a handle that was moved
from has neither. -/
structure World.HandsOnWhole (w : World) (p : Holder) (h : Handle) : Prop where
  moved : ∀ st q u, HandleStep.moves? st = some (p, q) → st.Admissible w → st.Completes w u →
    u.live? q = some h ∧ ∃ g, u.live? p = some g ∧ g.slot = none ∧ g.ref.extent = 0
  copied : ∀ st q u, HandleStep.copies? st = some (p, q) → st.Admissible w → st.Completes w u →
    u.live? q = some h ∧ u.live? p = some h
  swapped : ∀ q g u, w.live? q = some g → (HandleStep.swap p q).Admissible w → (HandleStep.swap p q).Completes w u →
    u.live? q = some h ∧ u.live? p = some g

namespace World.Sound

variable {q : Holder} {g : Handle}

theorem live_of_moves (hw : w.Sound M) (hl : w.live? p = some h) (hb : h.elem.isBlock)
    (hm : st.moves? = some (p, q)) (ha : st.Admissible w) (hc : st.Completes w u) :
    u.live? q = some h ∧ u.live? p = some h.cleared := by
  cases st with
  | constructByMove into elem p' =>
    cases hm
    obtain ⟨hinto, h', hl', hcv⟩ := ha
    obtain rfl : h = h' := Option.some_inj.mp (hl.symm.trans hl')
    obtain rfl := Run.eq_of_convertible hcv (.inr hb)
    obtain ⟨x, hrun, -, hsource, htarget⟩ := hw.run_constructByMove hinto hl hb
    obtain rfl := hc.eq_of_run hrun
    exact ⟨htarget, hsource⟩
  | assignByMove q' p' =>
    unfold HandleStep.moves? at hm
    dsimp only at hm
    split at hm
    · cases hm
    rename_i hne
    cases hm
    obtain ⟨old, h', hold, hl', -, hcv⟩ := ha
    obtain rfl : h = h' := Option.some_inj.mp (hl.symm.trans hl')
    have he := Run.eq_of_convertible hcv (.inr hb)
    obtain ⟨x, hrun, -, hsource, htarget⟩ := hw.run_assignByMove hold (he ▸ hb) hl he hne
    obtain rfl := hc.eq_of_run hrun
    exact ⟨htarget, hsource⟩
  | _ => cases hm

theorem live_of_copies (hw : w.Sound M) (hl : w.live? p = some h) (hb : h.elem.isBlock)
    (hm : st.copies? = some (p, q)) (ha : st.Admissible w) (hc : st.Completes w u) :
    u.live? q = some h ∧ u.live? p = some h := by
  cases st with
  | constructByCopy into elem p' =>
    cases hm
    obtain ⟨hinto, h', hl', hf, hcv⟩ := ha
    obtain rfl : h = h' := Option.some_inj.mp (hl.symm.trans hl')
    obtain rfl := Run.eq_of_convertible hcv (.inr hb)
    obtain ⟨-, hsource, htarget⟩ := hc.of_ends (hw.run_constructByCopy hinto hl hb hf)
    exact ⟨htarget, hsource⟩
  | assignByCopy q' p' =>
    cases hm
    obtain ⟨old, h', hold, hl', -, hf, hcv⟩ := ha
    obtain rfl : h = h' := Option.some_inj.mp (hl.symm.trans hl')
    have he := Run.eq_of_convertible hcv (.inr hb)
    obtain ⟨-, hsource, htarget⟩ := hc.of_ends (hw.run_assignByCopy hold (he ▸ hb) hl hf he)
    exact ⟨htarget, hsource⟩
  | _ => cases hm

theorem live_of_swap (hw : w.Sound M) (hl : w.live? p = some h) (hb : h.elem.isBlock) (hg : w.live? q = some g)
    (ha : (HandleStep.swap p q).Admissible w) (hc : (HandleStep.swap p q).Completes w u) :
    u.live? q = some h ∧ u.live? p = some g := by
  obtain ⟨h', g', hl', hg', -, he⟩ := ha
  obtain rfl : h = h' := Option.some_inj.mp (hl.symm.trans hl')
  obtain rfl : g = g' := Option.some_inj.mp (hg.symm.trans hg')
  obtain rfl := hc.eq_of_run (bind_of_ok (swapHandles_apply hl hg))
  have hq : ((w.setHandle p g).setHandle q h).live? q = some h :=
    live?_setHandle_own (hw.isOwn_of_isBlock hg (he ▸ hb)) _ h
  refine ⟨hq, ?_⟩
  by_cases hpq : p = q
  · subst hpq
    obtain rfl : h = g := Option.some_inj.mp (hl.symm.trans hg)
    exact hq
  · rw [live?_setHandle_of_ne hpq, live?_setHandle_own (hw.isOwn_of_isBlock hl hb)]

theorem handsOnWhole (hw : w.Sound M) (hl : w.live? p = some h) (hb : h.elem.isBlock) : w.HandsOnWhole p h where
  moved st q u hm ha hc := by
    obtain ⟨htarget, hsource⟩ := hw.live_of_moves hl hb hm ha hc
    exact ⟨htarget, h.cleared, hsource, rfl, Referent.extent_empty h.elem⟩
  copied st q u hm ha hc := hw.live_of_copies hl hb hm ha hc
  swapped q g u hg ha hc := hw.live_of_swap hl hb hg ha hc

end World.Sound

/-- **Items behind blocks.**  A handle of a block is empty and has no items, or it has as many as the collection in its
slot.  After any run of steps on such handles, one whose slot held the collection at the start shows what was last
written to each item, or what the item was at the start; an index beyond the items is reported, a write changes nothing
but its item, and a cast leads to the whole collection.  While the collection has an owner it is not destroyed, and when
the last one lets go its items are destroyed once, from the last to the first. -/
theorem blocks_refine_collection (hs : AllEmpty slots) (hr : Attained slots w)
    (hv : w.Holds s (.collection item items.length) (.collection item items)) (hrun : ItemRun s w writes u) :
    (∀ p h, u.live? p = some h → h.elem.isBlock → u.HandsOnWhole p h ∧
      (h.slot = none → h.ref.extent = 0) ∧
      (∀ t, h.slot = some t → ∃ item' items', u.Holds t (.collection item' items'.length) (.collection item' items') ∧
        h.ref.extent = items'.length) ∧
      (h.slot = some s → u.ShowsItems p h s item (written item items writes))) ∧
    (∀ i (hi : i < items.length),
      (written item items writes)[i]? = some (((lastWritten? i writes).map item.cut).getD items[i])) ∧
    (w.Retains s item (written item items writes) u ∨ w.Discards s item (written item items writes) u) := by
  obtain ⟨⟨lost, hw⟩, -⟩ := (hrun.attained hr).sound hs
  have houtcome := hrun.outcome hs hr hv
  refine ⟨fun p h hl hb => ⟨hw.handsOnWhole hl hb, fun hnone => ?_, fun t ht => ?_, fun hslot => ?_⟩, fun i hi => ?_,
    houtcome⟩
  · rw [(Handle.refersIn_of_slot_eq_none hnone).mp (hw.refersIn_of_live hl), Referent.extent_empty]
  · obtain ⟨item', items', hholds, href⟩ := hw.holds_of_isBlock hl hb ht
    exact ⟨item', items', hholds, by rw [href]; rfl⟩
  · rcases houtcome with hretains | hdiscards
    · exact hw.showsItems hl hb hslot hretains.holds
    · have ho := (hw.refersIn_of_live hl).occupied hslot
      rw [hdiscards.emptied] at ho
      cases ho
  · rw [getElem?_written, List.getElem?_eq_getElem hi]
    rfl

/-! ### Two collections that are swapped -/

/-- The block of the handles, which does not tell how many items there are. -/
def trackedBlock : Ty := .block (.ofKind .tracked) none

def pairHandle : Handle := ⟨.unique, trackedBlock, some (.numbered 0), .items (some (.startOf (.numbered 0))) 2⟩

def singleHandle : Handle := ⟨.unique, trackedBlock, some (.numbered 1), .items (some (.startOf (.numbered 1))) 1⟩

/-- A program that holds a pair of items and a single one. -/
def pairAndSingle (first : Int32) (held : Table Holder Handle) : World where
  slots := [
    (.numbered 0, ⟨⟨.occupied, 1, some (.collection .tracked 2), 0, 64⟩, some (.collection .tracked [first, 2])⟩),
    (.numbered 1, ⟨⟨.occupied, 1, some (.collection .tracked 1), 64, 64⟩, some (.collection .tracked [3])⟩)]
  held := held
  bag := []
  values := []
  trace := [.moved 1, .moved 2, .constructed (.numbered 0) (.collection .tracked 2), .moved 3,
    .constructed (.numbered 1) (.collection .tracked 1)]

theorem attained_pairAndSingle :
    Attained twoSlots (pairAndSingle 1 [(.named "pair", pairHandle), (.named "single", singleHandle)]) := by
  have hpair : Attained twoSlots _ :=
    .step (.make (.named "pair") (.numbered 0) .unique trackedBlock (.arguments (Seed.ofItems .tracked [1, 2])) false)
      .start ⟨⟨rfl, rfl⟩, rfl, rfl, rfl, rfl, rfl⟩ (.returned _ rfl)
  exact .step
    (.make (.named "single") (.numbered 1) .unique trackedBlock (.arguments (Seed.ofItems .tracked [3])) false)
    hpair ⟨⟨rfl, rfl⟩, rfl, rfl, rfl, rfl, rfl⟩ (.returned _ rfl)

theorem itemRun_pairAndSingle : ItemRun (.numbered 0)
    (pairAndSingle 1 [(.named "pair", pairHandle), (.named "single", singleHandle)]) [⟨0, 7⟩]
    (pairAndSingle 7 [(.named "pair", singleHandle), (.named "single", pairHandle)]) := by
  have hswap : ItemRun (.numbered 0)
      (pairAndSingle 7 [(.named "pair", pairHandle), (.named "single", singleHandle)]) []
      (pairAndSingle 7 [(.named "pair", singleHandle), (.named "single", pairHandle)]) :=
    .cons (show (HandleStep.swap (.named "pair") (.named "single")).OnBlocks _ _ from ⟨pairHandle, rfl, rfl⟩)
      ⟨pairHandle, singleHandle, rfl, rfl, rfl, rfl⟩ (.returned _ rfl) (.nil _)
  exact .cons (show (HandleStep.writeItem (.named "pair") 0 7).OnBlocks
    (pairAndSingle 1 [(.named "pair", pairHandle), (.named "single", singleHandle)]) _ from ⟨pairHandle, rfl, rfl⟩)
    ⟨pairHandle, rfl, rfl, rfl, rfl⟩ (.returned _ rfl) hswap

/-- An item of the pair is written, and its handle swapped with the one of the single item.  The pair is what it was
otherwise, with no third item, and its items are destroyed in reverse order. -/
theorem blocks_refine_collection_pairAndSingle : AllEmpty twoSlots ∧
    Attained twoSlots (pairAndSingle 1 [(.named "pair", pairHandle), (.named "single", singleHandle)]) ∧
    (pairAndSingle 1 [(.named "pair", pairHandle), (.named "single", singleHandle)]).Holds (.numbered 0)
      (.collection .tracked 2) (.collection .tracked [1, 2]) ∧
    ∃ w : World, ItemRun (.numbered 0) (pairAndSingle 1 [(.named "pair", pairHandle), (.named "single", singleHandle)])
        [⟨0, 7⟩] w ∧
      w.live? (.named "single") = some pairHandle ∧ readItem pairHandle 0 w = .ok 7 w ∧
      readItem pairHandle 1 w = .ok 2 w ∧
      readItem pairHandle 2 w = .error (.violation (.indexOutOfRange 2 2)) w ∧
      ∃ u, (HandleStep.destroy (.named "single")).run w = .ok .done u ∧
        u.since w = [.destructed (.numbered 0) (.collection .tracked 2), .gone 2, .gone 7] := by
  have hpair : (pairAndSingle 1 [(.named "pair", pairHandle), (.named "single", singleHandle)]).Holds (.numbered 0)
      (.collection .tracked ([1, 2] : List Int32).length) (.collection .tracked [1, 2]) := ⟨rfl, rfl⟩
  obtain ⟨hhandles, -, -⟩ :=
    blocks_refine_collection allEmpty_twoSlots attained_pairAndSingle hpair itemRun_pairAndSingle
  obtain ⟨-, -, -, hshows⟩ := hhandles (.named "single") pairHandle rfl rfl
  have hitems := hshows rfl
  obtain ⟨u, hrun, -, htrace⟩ := hitems.last (.inl rfl) _ (.inr rfl)
  exact ⟨allEmpty_twoSlots, attained_pairAndSingle, hpair, _, itemRun_pairAndSingle, rfl,
    hitems.read 0 (by decide), hitems.read 1 (by decide), (hitems.beyond 2 (by decide)).1, u, hrun, since_eq htrace⟩

end SlotHandles
