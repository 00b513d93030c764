import SlotHandles.Proofs.Cascade
import SlotHandles.Proofs.Places

/-!
# Sound worlds

A world is sound if its slots are balanced with the handles of the program and with the handles that an operation
has in its hands at the moment (`moving`), and the values that were taken out are proper.

An operation exchanges a handle in its hands for the one at a place (`Sound.exchange`), keeps it at a new place
(`Sound.place`), takes up the handle of a place that is given up (`Sound.remove`), or lets go of it
(`Sound.release`, `Sound.releaseDisplaced`).
-/

namespace SlotHandles

/-- The slots are balanced with the handles of the program and those that are being moved. -/
structure World.Sound (w : World) (moving : Multiset Handle) : Prop where
  balanced : w.Balanced (moving + w.roots)
  held : w.held.Distinct
  values : w.values.Distinct
  proper : ∀ name v, w.values.find? name = some v → v.IsProper

namespace World

variable {w w' : World} {p q : Holder} {h g old : Handle} {s : SlotId} {M : Multiset Handle}

/-! ### Slots and places -/

theorem slots_setHandle (hp : ∀ s, p ≠ .inside s) (h : Handle) : (w.setHandle p h).slots = w.slots := by
  cases p with
  | inside s => exact absurd rfl (hp s)
  | named n | result n => rfl
  | within n =>
    unfold setHandle
    dsimp only
    split <;> rfl

/-- A handle that is put at a place replaces the one there among the live handles. -/
theorem handles_setHandle (hd : w.slots.Distinct) (hh : w.held.Distinct) (hv : w.values.Distinct)
    (hl : w.live? p = some old) (g : Handle) : old ::ₘ (w.setHandle p g).handles = g ::ₘ w.handles := by
  have outer : (∀ s, p ≠ .inside s) → old ::ₘ (w.setHandle p g).handles = g ::ₘ w.handles := by
    intro hp
    have hnested : (w.setHandle p g).nested = w.nested := by
      unfold nested
      rw [slots_setHandle hp]
    unfold handles
    rw [hnested, ← Multiset.cons_add, roots_setHandle hh hv hp hl, Multiset.cons_add]
  cases p with
  | named n | result n | within n => exact outer (by simp)
  | inside s =>
    obtain ⟨ho, v, hs, hn⟩ := nestedIn_eq_some_iff.mp hl
    have hnew : (w.setHandle (.inside s) g).nestedIn s = some g := live?_setHandle_self hl g
    have hold : w.nestedIn s = some old := hl
    rw [setHandle_inside hs] at hnew ⊢
    have e := nested_setStorage hd s (v.withNext g)
    rw [hnew, hold, Option.toList_some, Option.toList_some, Multiset.coe_singleton, Multiset.coe_singleton, add_comm,
      Multiset.singleton_add, add_comm, Multiset.singleton_add] at e
    have hroots : (w.setStorage s (v.withNext g)).roots = w.roots := rfl
    unfold handles
    rw [hroots, ← Multiset.add_cons, e, Multiset.add_cons]

theorem trace_setHandle (w : World) (p : Holder) (h : Handle) : (w.setHandle p h).trace = w.trace := by
  cases p with
  | named n | result n => rfl
  | inside s | within n =>
    unfold setHandle
    dsimp only
    split <;> rfl

/-- What the program holds after a handle has been put at a place is decided by what it held before. -/
theorem outside_setHandle (hh : w'.held = w.held) (hb : w'.bag = w.bag) (hv : w'.values = w.values) (p : Holder)
    (h : Handle) : (w'.setHandle p h).held = (w.setHandle p h).held ∧ (w'.setHandle p h).bag = (w.setHandle p h).bag ∧
      (w'.setHandle p h).values = (w.setHandle p h).values := by
  cases p with
  | named n | result n =>
    unfold setHandle
    dsimp only
    rw [hh]
    exact ⟨rfl, hb, hv⟩
  | inside s =>
    unfold setHandle
    dsimp only
    split <;> split <;> exact ⟨hh, hb, hv⟩
  | within n =>
    unfold setHandle
    dsimp only
    rw [hv]
    split
    · exact ⟨hh, hb, rfl⟩
    · exact ⟨hh, hb, hv⟩

theorem calm_setHandle (w : World) (p : Holder) (h : Handle) : w.Calm (w.setHandle p h) :=
  calm_of_controlOf ((trace_setHandle w p h).trans (List.append_nil _).symm) quiet_nil fun s =>
    controlOf_setHandle w p h s

theorem Vacant.setHandle (hq : w.Vacant q) (hl : w.live? p = some old) (h : Handle) : (w.setHandle p h).Vacant q := by
  refine ⟨hq.1, ?_⟩
  have hne : ∀ p' : Holder, w.held.find? p' = some old → q ≠ p' := by
    rintro p' hp' rfl
    rw [hq.2] at hp'
    cases hp'
  cases p with
  | named n | result n => exact (Table.find?_put_of_ne _ _ (hne _ hl)).trans hq.2
  | inside s | within n =>
    unfold World.setHandle
    dsimp only
    split <;> exact hq.2

theorem find?_values_setHandle {name : String} (hf : w.values.find? name = none) (p : Holder) (h : Handle) :
    (w.setHandle p h).values.find? name = none := by
  cases p with
  | named n | result n => exact hf
  | inside s =>
    unfold setHandle
    dsimp only
    split <;> exact hf
  | within n =>
    unfold setHandle
    dsimp only
    split
    · next v hv =>
      have hne : name ≠ n := by
        rintro rfl
        rw [hf] at hv
        cases hv
      exact (Table.find?_put_of_ne _ _ hne).trans hf
    · exact hf

/-- The value that stores the handle at a place was torn down. -/
def TornAt (w w' : World) (p : Holder) : Prop := ∃ s, p = .inside s ∧ w.TearsDown w' s

theorem TornAt.widen {u u' : World} (h : w.TornAt w' p) (hu : u.trace <+: w.trace) (hu' : w'.trace <+: u'.trace) :
    u.TornAt u' p := by
  obtain ⟨s, hp, ht⟩ := h
  exact ⟨s, hp, ht.widen hu hu'⟩

/-- A teardown leaves the handles alone whose values it does not tear down. -/
theorem live?_of_sheds (h : w.Sheds w') (hp : ¬ w.TornAt w' p) : w'.live? p = w.live? p := by
  apply live?_congr h.held h.values
  intro s hs
  have hk := h.kept (s := s) fun ht => hp ⟨s, hs, ht⟩
  exact ⟨hk.1, hk.2.2⟩

namespace Sound

/-! ### Handles that are being moved -/

/-- Between operations the slots are balanced with the handles of the program. -/
theorem balanced_roots (hw : w.Sound 0) : w.Balanced w.roots := by
  have hb := hw.balanced
  rwa [zero_add] at hb

theorem log (hw : w.Sound M) (es : List Event) : (w.log es).Sound M :=
  ⟨hw.balanced.log es, hw.held, hw.values, hw.proper⟩

theorem replace (hw : w.Sound (h ::ₘ M)) (hf : g.family = h.family) (hs : g.slot = h.slot) (hr : g.RefersIn w) :
    w.Sound (g ::ₘ M) := by
  refine ⟨?_, hw.held, hw.values, hw.proper⟩
  have hb := hw.balanced
  rw [Multiset.cons_add] at hb ⊢
  exact hb.replace hf hs hr

theorem cons_iff_of_empty (hs : h.slot = none) (hr : h.RefersIn w) : w.Sound (h ::ₘ M) ↔ w.Sound M := by
  have hb := World.Balanced.cons_iff_of_empty (X := M + w.roots) hs hr
  constructor
  · intro hw
    exact ⟨hb.mp (Multiset.cons_add h M _ ▸ hw.balanced), hw.held, hw.values, hw.proper⟩
  · intro hw
    refine ⟨?_, hw.held, hw.values, hw.proper⟩
    rw [Multiset.cons_add]
    exact hb.mpr hw.balanced

theorem refersIn (hw : w.Sound (h ::ₘ M)) : h.RefersIn w := hw.balanced.refers h (by simp)

theorem convert (hw : w.Sound (h ::ₘ M)) {target : Ty} (hc : Run.convertible target h.elem) :
    w.Sound (h.convert target ::ₘ M) :=
  hw.replace (Handle.family_convert ..) (Handle.slot_convert ..) (hw.refersIn.convert hc)

theorem mem_of_live (hw : w.Sound M) (hl : w.live? p = some h) : h ∈ M + w.roots + w.nested := by
  have own : ∀ p' : Holder, w.held.find? p' = some h → h ∈ M + w.roots + w.nested := by
    intro p' hp'
    rw [← roots_remove hw.held hp']
    simp
  cases p with
  | named n | result n => exact own _ hl
  | inside s =>
    have hn : h ∈ w.nested := (mem_nested hw.balanced.distinct).mpr ⟨s, hl⟩
    exact Multiset.mem_add.mpr (.inr hn)
  | within n =>
    obtain ⟨v, hv, hn⟩ := Option.bind_eq_some_iff.mp hl
    rw [roots_remove_value hw.values hv, hn]
    simp

theorem refersIn_of_live (hw : w.Sound M) (hl : w.live? p = some h) : h.RefersIn w :=
  hw.balanced.refers h (hw.mem_of_live hl)

/-- The value of a slot gives way to another one of its type; what it stores is taken in hand. -/
theorem setValue {N : Multiset Handle} {v v' : Value} (hw : w.Sound N)
    (hMN : M + (v'.next?.toList : Multiset Handle) = N + (v.next?.toList : Multiset Handle))
    (ho : (w.controlOf s).state = .occupied) (hv : w.storageOf s = some v) (ht : v'.type = v.type) (hp : v'.IsProper) :
    (w.setStorage s v').Sound M := by
  refine ⟨?_, hw.held, hw.values, hw.proper⟩
  refine hw.balanced.setStorage ?_ ho hv ht hp
  have hroots : (w.setStorage s v').roots = w.roots := rfl
  rw [hroots, add_right_comm, hMN, add_right_comm]

theorem proper_put {n : String} {v : Value} (hw : w.Sound M) (hv : v.IsProper) (name : String) (u : Value)
    (hu : (w.values.put n v).find? name = some u) : u.IsProper := by
  by_cases hname : name = n
  · subst hname
    rw [Table.find?_put_self] at hu
    cases hu
    exact hv
  · rw [Table.find?_put_of_ne _ _ hname] at hu
    exact hw.proper name u hu

/-- The handle in hand and the handle at a place change places. -/
theorem exchange (hw : w.Sound (h ::ₘ M)) (hl : w.live? p = some old) (hf : h.family = old.family)
    (he : h.elem = old.elem) : (w.setHandle p h).Sound (old ::ₘ M) := by
  have outer : (∀ s, p ≠ .inside s) → (w.setHandle p h).Balanced (old ::ₘ M + (w.setHandle p h).roots) := by
    intro hp
    have hroots := roots_setHandle hw.held hw.values hp hl h
    have hb := hw.balanced.congr (slots_setHandle hp h)
    rwa [Multiset.cons_add, ← Multiset.add_cons, ← hroots, Multiset.add_cons, ← Multiset.cons_add] at hb
  cases p with
  | named n => exact ⟨outer (by simp), hw.held.put _, hw.values, hw.proper⟩
  | result n => exact ⟨outer (by simp), hw.held.put _, hw.values, hw.proper⟩
  | inside s =>
    obtain ⟨ho, v, hv, hn⟩ := nestedIn_eq_some_iff.mp hl
    have hp := (hw.balanced.value_of_storage ho hv).2.2
    rw [setHandle_inside hv]
    refine hw.setValue ?_ ho hv (Value.type_withNext ..) (hp.withNext hn hf he)
    rw [Value.next?_withNext hn, hn, ← Multiset.singleton_add, ← Multiset.singleton_add]
    simp only [Option.toList_some, Multiset.coe_singleton]
    abel
  | within n =>
    obtain ⟨v, hv, hn⟩ := Option.bind_eq_some_iff.mp hl
    have hb := outer (by simp)
    rw [setHandle_within hv] at hb ⊢
    exact ⟨hb, hw.held, hw.values.put _, hw.proper_put ((hw.proper n v hv).withNext hn hf he)⟩

/-- The handle in hand is kept at a new place. -/
theorem place (hw : w.Sound (h ::ₘ M)) (hp : w.Vacant p) : (w.setHandle p h).Sound M := by
  have hin : ∀ s, p ≠ .inside s := by
    rintro s rfl
    exact absurd hp.1 (by simp [Holder.isOwn])
  have hb := hw.balanced.congr (slots_setHandle hin h)
  rw [Multiset.cons_add, ← Multiset.add_cons, ← roots_setHandle_of_vacant hw.held hp] at hb
  cases p with
  | named n | result n => exact ⟨hb, hw.held.put _, hw.values, hw.proper⟩
  | inside s => exact absurd rfl (hin s)
  | within n => exact absurd hp.1 (by simp [Holder.isOwn])

theorem remove (hw : w.Sound M) (hp : w.held.find? p = some h) :
    ({ w with held := w.held.remove p } : World).Sound (h ::ₘ M) := by
  have hb : ({ w with held := w.held.remove p } : World).Balanced (M + w.roots) := hw.balanced.congr rfl
  rw [← roots_remove hw.held hp, Multiset.add_cons, ← Multiset.cons_add] at hb
  exact ⟨hb, hw.held.remove, hw.values, hw.proper⟩

theorem putValue {name : String} {v : Value} (hw : w.Sound ((v.next?.toList : Multiset Handle) + M))
    (hf : w.values.find? name = none) (hv : v.IsProper) :
    ({ w with values := w.values.put name v } : World).Sound M := by
  refine ⟨?_, hw.held, hw.values.put v, hw.proper_put hv⟩
  rw [roots_put_value hw.values hf, ← add_assoc, add_comm, ← add_assoc]
  exact hw.balanced.congr rfl

theorem removeValue {name : String} {v : Value} (hw : w.Sound M) (hf : w.values.find? name = some v) :
    ({ w with values := w.values.remove name } : World).Sound ((v.next?.toList : Multiset Handle) + M) := by
  refine ⟨?_, hw.held, hw.values.remove, ?_⟩
  · rw [add_assoc, add_left_comm, add_comm (Multiset.ofList v.next?.toList), ← roots_remove_value hw.values hf]
    exact hw.balanced.congr rfl
  · intro other u hu
    dsimp only at hu
    by_cases hname : other = name
    · subst hname
      rw [Table.find?_remove_self] at hu
      cases hu
    · rw [Table.find?_remove_of_ne _ hname] at hu
      exact hw.proper other u hu

/-- The handle at a place is taken in hand, and an empty one is left there. -/
theorem lift (hw : w.Sound M) (hl : w.live? p = some h) : (w.setHandle p h.cleared).Sound (h ::ₘ M) :=
  Sound.exchange ((cons_iff_of_empty rfl (Handle.refersIn_cleared w h)).mpr hw) hl rfl rfl

theorem put (hw : w.Sound (g ::ₘ M)) (hl : w.live? p = some old) (hs : old.slot = none) (hf : g.family = old.family)
    (he : g.elem = old.elem) : (w.setHandle p g).Sound M := by
  have hx := hw.exchange hl hf he
  exact (cons_iff_of_empty hs hx.refersIn).mp hx

/-! ### Letting go -/

theorem of_sheds {N : Multiset Handle} (hw : w.Sound N) (hs : w.Sheds w') (hb : w'.Balanced (M + w.roots)) :
    w'.Sound M := by
  refine ⟨?_, hs.held ▸ hw.held, hs.values ▸ hw.values, hs.values ▸ hw.proper⟩
  rwa [hs.roots_eq]

/-- The handle in hand is let go of. -/
theorem release (hw : w.Sound (h ::ₘ M)) : ∃ w', SlotHandles.release h w = .ok () w' ∧ w'.Sound M ∧ w.Sheds w' := by
  have hb := hw.balanced
  rw [Multiset.cons_add] at hb
  obtain ⟨w', he, hb', hs⟩ := release_ok hb
  exact ⟨w', he, hw.of_sheds hs hb', hs⟩

end Sound

/-- The mask under which a handle stands at a place in a slot. -/
def maskAt (w : World) (p : Holder) (h : Handle) : Option (SlotId × Value) :=
  match p with
  | .inside s => (w.storageOf s).map fun v => (s, v.withNext h)
  | _ => none

theorem slots_maskAt (w : World) (p : Holder) (h : Handle) :
    (w.masked (w.maskAt p h)).slots = (w.setHandle p h).slots := by
  cases p with
  | named n | result n | within n => exact (slots_setHandle (by simp) h).symm
  | inside s =>
    unfold maskAt setHandle
    dsimp only
    cases w.storageOf s <;> rfl

/-- A handle that still stands at its place is let go of.  If its place is not torn down, it is there afterwards for
another one to take its place. -/
theorem Sound.releaseDisplaced (hw : (w.setHandle p old.cleared).Sound (old ::ₘ M)) :
    Ends (SlotHandles.release old) w
      (fun _ w' => w.TornAt w' p ∨ (w'.setHandle p old.cleared).Sound M ∧ w.Sheds w') (fun _ w' => w.TornAt w' p) := by
  have hb := hw.balanced.congr (slots_maskAt w p old.cleared)
  rw [Multiset.cons_add] at hb
  -- only a place inside a slot has a mask, and then it is that slot which is disturbed
  have htorn : ∀ w' : World, w.Disturbs (w.maskAt p old.cleared) w' → w.TornAt w' p := by
    intro w' hd
    cases p with
    | named n | result n | within n => exact absurd hd not_disturbs_none
    | inside s =>
      unfold maskAt at hd
      dsimp only at hd
      cases hv : w.storageOf s with
      | none =>
        rw [hv] at hd
        exact absurd hd not_disturbs_none
      | some v =>
        rw [hv] at hd
        obtain ⟨_, _, hm, ht⟩ := hd
        cases hm
        exact ⟨s, rfl, ht⟩
  refine (release_ends hb).mono ?_ fun _ w' h => htorn w' h
  rintro - w' (h | h)
  · exact .inl (htorn w' h)
  by_cases hp : w.TornAt w' p
  · exact .inl hp
  refine .inr ⟨?_, h.sheds⟩
  -- a value that was not torn down is still in its storage
  have hmask : w.maskAt p old.cleared = w'.maskAt p old.cleared := by
    cases p with
    | named n | result n | within n => rfl
    | inside s =>
      have hk := h.sheds.kept (s := s) fun ht => hp ⟨s, rfl, ht⟩
      unfold maskAt
      dsimp only
      rw [hk.2.2]
  obtain ⟨hheld, hbag, hvalues⟩ := outside_setHandle h.sheds.held h.sheds.bag h.sheds.values p old.cleared
  have hroots : (w'.setHandle p old.cleared).roots = (w.setHandle p old.cleared).roots := by
    unfold roots
    rw [hheld, hbag, hvalues]
  refine ⟨?_, hheld ▸ hw.held, hvalues ▸ hw.values, hvalues ▸ hw.proper⟩
  rw [hroots]
  have hb' := h.balanced
  rw [hmask] at hb'
  exact hb'.congr (slots_maskAt w' p old.cleared).symm

/-- Some counts went up, and nothing else but announcements happened. -/
structure Counts (w w' : World) : Prop where
  calm : w.Calm w'
  held : w'.held = w.held
  values : w'.values = w.values
  storage : ∀ s, w'.storageOf s = w.storageOf s

theorem counts_log {es : List Event} (hq : Quiet es) : w.Counts (w.log es) := ⟨calm_log hq, rfl, rfl, fun _ => rfl⟩

theorem Counts.refl (w : World) : w.Counts w := ⟨.refl w, rfl, rfl, fun _ => rfl⟩

theorem Counts.trans {u : World} (h : w.Counts u) (h' : u.Counts w') : w.Counts w' :=
  ⟨h.calm.trans h'.calm, h'.held.trans h.held, h'.values.trans h.values, fun s => (h'.storage s).trans (h.storage s)⟩

theorem Counts.live? (h : w.Counts w') (p : Holder) : w'.live? p = w.live? p :=
  live?_congr h.held h.values fun s _ => ⟨h.calm.state s, h.storage s⟩

/-- The failure to count one more reference. -/
def Overflows (w : World) (f : Failure) : Prop := f = .violation .countOverflow ∧ w.Overfull

/-- The world with one more reference to the value of a slot. -/
def countedUp (w : World) (s : SlotId) : World :=
  w.setControl s { w.controlOf s with count := (w.controlOf s).count + 1 }

/-- One more shared handle to a slot that has shared owners: the count cannot be carried on forever, but nothing else
stands in the way. -/
theorem Sound.addReference (hw : w.Sound M) (hh : h ∈ M + w.roots + w.nested) (hf : h.family = .shared)
    (hs : h.slot = some s) :
    Ends (onControl s ControlBlock.addReference) w
      (fun _ w' => w' = w.countedUp s ∧ (w.controlOf s).count ≠ 0xffffffff ∧ w'.Sound (h ::ₘ M) ∧ w.Counts w')
      (fun f _ => f = .violation .countOverflow ∧ (w.controlOf s).count = 0xffffffff) := by
  have ho := hw.balanced.occupied hh hs
  have hpos := hw.balanced.shared_count hh hf hs
  have hsum := hw.balanced.count_eq ho
  have hne : (w.controlOf s).count ≠ 0 := by
    intro h0
    rw [h0] at hsum
    have hzero : (0 : UInt32).toNat = 0 := rfl
    omega
  by_cases hmax : (w.controlOf s).count = 0xffffffff
  · have hrun := onControl_error (s := s) (w := w) ((ControlBlock.addReference_apply (w.controlOf s)).trans
      ((if_neg hne).trans (if_pos hmax)))
    exact (ends_of_error hrun).mpr ⟨rfl, hmax⟩
  have hrun := onControl_ok (s := s) (w := w) ((ControlBlock.addReference_apply (w.controlOf s)).trans
    ((if_neg hne).trans (if_neg hmax)))
  rw [ends_of_ok hrun]
  have hcalm : w.Calm (w.countedUp s) := by
    apply calm_recount (find?_isSome_of_occupied ho)
    rw [toNat_add_one hmax]
    omega
  refine ⟨rfl, hmax, ⟨?_, hw.held, hw.values, hw.proper⟩, hcalm, rfl, rfl, fun t => storageOf_setControl ..⟩
  have hb := hw.balanced.addShared hh hf hs hf hs (hw.balanced.refers h hh) hmax
  rw [Multiset.cons_add]
  exact hb

end World

/-! ### How an operation may fail -/

/-- An operation that fails has either thrown an exception and left a sound world, or there is a violation to blame on
its use. -/
def World.Fails (w : World) (M : Multiset Handle) (blame : Violation → Prop) (f : Failure) (w' : World) : Prop :=
  match f with
  | .exception _ => w'.Sound M ∧ w.Evolves w'
  | .violation v => blame v
  | .nullAccess => False

section

variable {w u w' : World} {M : Multiset Handle} {blame blame' : Violation → Prop} {f : Failure}

theorem World.Fails.mono (h : w.Fails M blame f w') (hb : ∀ v, blame v → blame' v) : w.Fails M blame' f w' := by
  cases f with
  | exception t => exact h
  | violation v => exact hb v h
  | nullAccess => exact h

theorem World.fails_of_violation {v : Violation} (w w' : World) (M : Multiset Handle) (hf : f = .violation v)
    (hb : blame v) : w.Fails M blame f w' := by
  subst hf
  exact hb

end

end SlotHandles
