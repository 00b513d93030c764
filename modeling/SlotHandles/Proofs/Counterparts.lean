import SlotHandles.Proofs.Renewal

/-!
# Counterparts

The counterpart of a handle program is the same program with the families exchanged: it has shared handles where the
other has exclusive ones.  The values of the catalogue that store handles change with them, so `node` and `snode` change
places, in element types too.

`counterpart` does this to types, handles, values, events and steps.  Nothing that decides about a step can tell a type
from its counterpart: conversions (`Ty.conversion?_counterpart`), the rules for element types, layouts and constructors
(`Origin.placement_counterpart`).  What a probe announces of its control block is the one thing that is left out
(`Event.bare`), since the counts of dead slots differ.
-/

namespace SlotHandles

def Family.counterpart : Family → Family
  | .unique => .shared
  | .shared => .unique

def Kind.counterpart : Kind → Kind
  | .node => .snode
  | .snode => .node
  | k => k

def Leaf.counterpart : Leaf → Leaf
  | .kind k => .kind k.counterpart
  | leaf => leaf

def Ty.counterpart : Ty → Ty
  | .plain q leaf => .plain q leaf.counterpart
  | .pointer q target => .pointer q target.counterpart
  | .fixed q item extent => .fixed q item.counterpart extent
  | .block item extent => .block item.counterpart extent
  | .view q face => .view q face
  | .reference target => .reference target.counterpart

def StoredType.counterpart : StoredType → StoredType
  | .single k => .single k.counterpart
  | .collection item extent => .collection item extent

def View.counterpart (v : View) : View := ⟨v.data, v.table.map .counterpart, v.type.map .counterpart⟩

def Referent.counterpart : Referent → Referent
  | .view v => .view v.counterpart
  | r => r

def Handle.counterpart (h : Handle) : Handle := ⟨h.family.counterpart, h.elem.counterpart, h.slot, h.ref.counterpart⟩

def Value.counterpart : Value → Value
  | .node id next => .snode id next.counterpart
  | .snode id next => .node id next.counterpart
  | v => v

def Event.counterpart : Event → Event
  | .farewell "node" n => .farewell "snode" n
  | .farewell "snode" n => .farewell "node" n
  | .constructed s t => .constructed s t.counterpart
  | .destructed s t => .destructed s t.counterpart
  | e => e

/-- The event without what a probe sees of its control block. -/
def Event.bare : Event → Event
  | .probeBuilt id _ => .probeBuilt id ""
  | .probeDestroyed id _ => .probeDestroyed id ""
  | e => e

/-- Event by event the second list is the counterpart of the first, up to what probes see. -/
def EventsMatch (es es' : List Event) : Prop := es'.map Event.bare = es.map fun e => e.counterpart.bare

def Violation.counterpart : Violation → Violation
  | .dereferencingEmpty family => .dereferencingEmpty family.counterpart
  | .dereferencingDead family => .dereferencingDead family.counterpart
  | v => v

def Failure.counterpart : Failure → Failure
  | .violation v => .violation v.counterpart
  | f => f

def Answer.counterpart : Answer → Answer
  | .value v => .value v.counterpart
  | .view v => .view v.counterpart
  | a => a

/-! ### Types -/

theorem Kind.counterpart_involutive : Function.Involutive counterpart := by
  intro k
  cases k <;> rfl

theorem Leaf.counterpart_involutive : Function.Involutive counterpart := by
  intro leaf
  cases leaf with
  | kind k => exact congrArg Leaf.kind (Kind.counterpart_involutive k)
  | _ => rfl

/-- No node has base parts or is one. -/
theorem Leaf.partOffset?_counterpart (source target : Leaf) :
    source.counterpart.partOffset? target.counterpart = source.partOffset? target := by
  have hparts : source.counterpart.baseParts = source.baseParts := by
    cases source with
    | kind k => cases k <;> rfl
    | _ => rfl
  have hkept : ∀ b ∈ source.baseParts, b.part.counterpart = b.part := by
    cases source with
    | kind k => cases k <;> decide
    | _ => decide
  have hfilter : source.baseParts.filter (·.part = target.counterpart) = source.baseParts.filter (·.part = target) := by
    apply List.filter_congr
    intro b hb
    have hpart := hkept b hb
    rw [decide_eq_decide]
    constructor
    · intro h
      rw [← hpart] at h
      exact counterpart_involutive.injective h
    · intro h
      rw [← hpart, h]
  unfold partOffset? PartTable.offset?
  dsimp only [PartTable.catalogue]
  rw [hparts, hfilter]
  by_cases h : source = target
  · rw [if_pos h, if_pos (congrArg _ h)]
  · rw [if_neg h, if_neg fun e => h (counterpart_involutive.injective e)]

namespace Ty

theorem counterpart_involutive : Function.Involutive counterpart := by
  intro t
  induction t with
  | plain q leaf => exact congrArg (Ty.plain q) (Leaf.counterpart_involutive leaf)
  | pointer q target ih => exact congrArg (Ty.pointer q) ih
  | fixed q item extent ih => exact congrArg (Ty.fixed q · extent) ih
  | block item extent ih => exact congrArg (Ty.block · extent) ih
  | view => rfl
  | reference target ih => exact congrArg Ty.reference ih

theorem counterpart_inj {t u : Ty} : t.counterpart = u.counterpart ↔ t = u := counterpart_involutive.injective.eq_iff

@[simp] theorem quals_counterpart (t : Ty) : t.counterpart.quals = t.quals := by
  induction t with
  | block item extent ih => exact ih
  | _ => rfl

@[simp] theorem unqualified_counterpart (t : Ty) : t.counterpart.unqualified = t.unqualified.counterpart := by
  induction t with
  | block item extent ih => exact congrArg (Ty.block · extent) ih
  | _ => rfl

@[simp] theorem face?_counterpart (t : Ty) : t.counterpart.face? = t.face? := by
  cases t <;> rfl

@[simp] theorem isView_counterpart (t : Ty) : t.counterpart.isView = t.isView := by
  cases t <;> rfl

@[simp] theorem isBlock_counterpart (t : Ty) : t.counterpart.isBlock = t.isBlock := by
  cases t <;> rfl

@[simp] theorem isReference_counterpart (t : Ty) : t.counterpart.isReference = t.isReference := by
  cases t <;> rfl

@[simp] theorem identity_counterpart (t : Ty) : t.counterpart.identity = t.identity.counterpart :=
  unqualified_counterpart t

theorem isElement_counterpart (t : Ty) : t.counterpart.isElement = t.isElement := by
  cases t with
  | block item extent => cases extent <;> rfl
  | _ => rfl

theorem isConcrete_counterpart (t : Ty) : t.counterpart.isConcrete = t.isConcrete := by
  unfold isConcrete
  rw [isView_counterpart, isBlock_counterpart, isReference_counterpart]

/-- An address converts between types exactly as it does between their counterparts. -/
theorem conversion?_counterpart (source target : Ty) :
    source.counterpart.conversion? target.counterpart = source.conversion? target := by
  unfold conversion?
  rw [isReference_counterpart, isReference_counterpart, quals_counterpart, quals_counterpart, unqualified_counterpart,
    unqualified_counterpart]
  refine if_congr Iff.rfl rfl ?_
  generalize source.unqualified = s
  generalize target.unqualified = t
  have hother : (if s.counterpart = t.counterpart then some 0 else none) = if s = t then some 0 else none :=
    if_congr counterpart_inj rfl rfl
  cases t with
  | plain q leaf =>
    cases s with
    | plain q' leaf' =>
      cases leaf with
      | void => rfl
      | _ => exact Leaf.partOffset?_counterpart leaf' _
    | _ => cases leaf <;> rfl
  | _ => cases s <;> exact hother

theorem converts_counterpart (source target : Ty) :
    source.counterpart.converts target.counterpart = source.converts target := by
  unfold converts
  rw [conversion?_counterpart]

theorem collectionItem?_counterpart (t : Ty) : t.counterpart.collectionItem? = t.collectionItem?.map counterpart := by
  cases t with
  | fixed q item extent =>
    unfold counterpart collectionItem?
    dsimp only
    split <;> rfl
  | _ => rfl

theorem satisfiedBy_counterpart (face : Interface) (t : Ty) : face.satisfiedBy t.counterpart = face.satisfiedBy t := by
  cases t with
  | plain q leaf =>
    cases leaf with
    | kind k => cases face <;> cases k <;> rfl
    | _ => cases face <;> rfl
  | _ => cases face <;> rfl

theorem owns_counterpart (elem stored : Ty) : elem.counterpart.owns stored.counterpart = elem.owns stored := by
  unfold owns
  rw [isView_counterpart, isBlock_counterpart, isReference_counterpart]
  refine if_congr Iff.rfl rfl ?_
  cases elem with
  | view q face => exact satisfiedBy_counterpart face stored
  | block item extent =>
    cases extent with
    | some n => rfl
    | none =>
      simp only [counterpart]
      rw [collectionItem?_counterpart]
      cases stored.collectionItem? with
      | none => rfl
      | some i =>
        dsimp only [Option.map_some]
        rw [unqualified_counterpart, unqualified_counterpart, converts_counterpart]
        simp only [counterpart_inj]
  | _ => exact converts_counterpart stored _

theorem convertible_counterpart (target source : Ty) :
    Run.convertible target.counterpart source.counterpart = Run.convertible target source := by
  unfold Run.convertible takesOver
  rw [isView_counterpart, isView_counterpart, isBlock_counterpart, isBlock_counterpart, converts_counterpart]
  simp only [counterpart_inj]

end Ty

namespace StoredType

@[simp] theorem ty_counterpart (t : StoredType) : t.counterpart.ty = t.ty.counterpart := by
  cases t with
  | single k => rfl
  | collection item extent => cases item <;> rfl

@[simp] theorem layout_counterpart (t : StoredType) : t.counterpart.layout = t.layout := by
  cases t with
  | single k => cases k <;> rfl
  | collection => rfl

theorem movable_counterpart (t : StoredType) : t.counterpart.movable = t.movable := by
  cases t with
  | single k => cases k <;> rfl
  | collection => rfl

/-- Shared nodes can be copied, and exclusive ones cannot. -/
theorem copyable_counterpart {t : StoredType} (h : t.copyable) (ht : t ≠ .single .snode) : t.counterpart.copyable := by
  cases t with
  | single k => cases k <;> first | exact absurd rfl ht | exact h | cases h
  | collection => rfl

end StoredType

/-! ### References and handles -/

namespace Referent

@[simp] theorem address_counterpart (r : Referent) : r.counterpart.address = r.address := by
  cases r <;> rfl

@[simp] theorem extent_counterpart (r : Referent) : r.counterpart.extent = r.extent := by
  cases r <;> rfl

theorem counterpart_empty (elem : Ty) : (empty elem).counterpart = empty elem.counterpart := by
  cases elem <;> rfl

/-- The reference of a new handle, by the cases of its element type. -/
theorem counterpart_toValue (elem : Ty) (t : StoredType) (s : SlotId) :
    (toValue elem t s).counterpart = toValue elem.counterpart t.counterpart s := by
  have hplain : Referent.object (some ((Address.startOf s).move ((t.ty.conversion? elem).getD 0))) =
      .object (some ((Address.startOf s).move ((t.counterpart.ty.conversion? elem.counterpart).getD 0))) := by
    rw [StoredType.ty_counterpart, Ty.conversion?_counterpart]
  cases elem with
  | view q face => rfl
  | block item extent =>
    cases t with
    | single k => exact hplain
    | collection i n => cases n <;> rfl
  | plain | pointer | fixed | reference => exact hplain

theorem counterpart_convert (source target : Ty) (r : Referent) :
    (r.convert source target).counterpart = r.counterpart.convert source.counterpart target.counterpart := by
  unfold convert
  rw [address_counterpart, Ty.conversion?_counterpart]
  rfl

end Referent

namespace Handle

theorem counterpart_empty (family : Family) (elem : Ty) :
    (empty family elem).counterpart = empty family.counterpart elem.counterpart := by
  unfold empty counterpart
  rw [Referent.counterpart_empty]

@[simp] theorem counterpart_cleared (h : Handle) : h.cleared.counterpart = h.counterpart.cleared :=
  counterpart_empty h.family h.elem

@[simp] theorem counterpart_convert (target : Ty) (h : Handle) :
    (h.convert target).counterpart = h.counterpart.convert target.counterpart := by
  unfold convert
  by_cases he : h.elem = target
  · have he' : h.counterpart.elem = target.counterpart := congrArg _ he
    rw [if_pos he, if_pos he']
  · have he' : h.counterpart.elem ≠ target.counterpart := fun e => he (Ty.counterpart_inj.mp e)
    rw [if_neg he, if_neg he']
    unfold counterpart
    dsimp only
    rw [Referent.counterpart_convert]

end Handle

/-- A block whose value is of the counterpart type holds the counterpart of what the other one holds. -/
theorem ControlBlock.holds_counterpart {c d : ControlBlock} (h : d.heldType = c.heldType.map .counterpart) (t : Ty) :
    d.holds t.counterpart = c.holds t := by
  unfold holds
  rw [h]
  cases c.heldType with
  | none => rfl
  | some u =>
    dsimp only [Option.map_some]
    rw [StoredType.ty_counterpart, Ty.identity_counterpart]
    simp only [Ty.counterpart_inj]

/-! ### Events -/

theorem eventsMatch_nil : EventsMatch [] [] := rfl

theorem EventsMatch.append {es es' fs fs' : List Event} (h : EventsMatch es es') (h' : EventsMatch fs fs') :
    EventsMatch (es ++ fs) (es' ++ fs') := by
  unfold EventsMatch at *
  rw [List.map_append, List.map_append, h, h']

theorem EventsMatch.cons {e e' : Event} {es es' : List Event} (he : e'.bare = e.counterpart.bare)
    (h : EventsMatch es es') : EventsMatch (e :: es) (e' :: es') := by
  unfold EventsMatch at *
  rw [List.map_cons, List.map_cons, he, h]

theorem eventsMatch_map {α : Type} {f : α → Event} (hf : ∀ x, (f x).counterpart = f x) (l : List α) :
    EventsMatch (l.map f) (l.map f) := by
  unfold EventsMatch
  rw [List.map_map, List.map_map]
  apply List.map_congr_left
  intro x _
  exact congrArg Event.bare (hf x).symm

/-! ### Values -/

namespace Value

@[simp] theorem type_counterpart (v : Value) : v.counterpart.type = v.type.counterpart := by
  cases v <;> rfl

@[simp] theorem next?_counterpart (v : Value) : v.counterpart.next? = v.next?.map Handle.counterpart := by
  cases v <;> rfl

theorem isPassive_counterpart (v : Value) : v.counterpart.isPassive = v.isPassive := by
  cases v <;> rfl

theorem counterpart_withNext (v : Value) (h : Handle) :
    (v.withNext h).counterpart = v.counterpart.withNext h.counterpart := by
  cases v <;> rfl

theorem counterpart_blank (t : StoredType) : (blank t).counterpart = blank t.counterpart := by
  cases t with
  | single k => cases k <;> rfl
  | collection => rfl

theorem item?_counterpart (v : Value) (i : Nat) : v.counterpart.item? i = v.item? i := by
  cases v <;> rfl

theorem result_call_counterpart (v : Value) (m : Method) : (v.counterpart.call m).result = (v.call m).result := by
  cases v <;> rfl

/-- An operation that does not modify leaves the value as it is. -/
theorem after_call (v : Value) {m : Method} (hm : m.modifies = false) : (v.call m).after = v := by
  cases m with
  | scale | next => cases hm
  | _ => cases v <;> rfl

theorem eventsMatch_arrival (v : Value) : EventsMatch v.arrival v.counterpart.arrival := by
  cases v with
  | collection item items =>
    cases item with
    | tracked => exact eventsMatch_map (fun _ => rfl) items
    | int | constInt | u8 => exact eventsMatch_nil
  | _ => rfl

theorem eventsMatch_parting (v : Value) : EventsMatch v.parting v.counterpart.parting := by
  cases v with
  | collection item items =>
    cases item with
    | tracked => exact eventsMatch_map (fun _ => rfl) items.reverse
    | int | constInt | u8 => exact eventsMatch_nil
  | _ => rfl

theorem eventsMatch_lastWords (v : Value) (c d : ControlBlock) :
    EventsMatch (v.lastWords c) (v.counterpart.lastWords d) := by
  have hparting := eventsMatch_parting v
  cases v with
  | probe id onBuild onDestroy => rfl
  | _ => exact hparting

end Value

/-! ### Constructions -/

/-- The constructions end alike and announce the same. -/
structure Construction.Matches (k k' : Construction) : Prop where
  events : EventsMatch k.events k'.events
  thrown : k'.thrown = k.thrown

theorem Value.construction_matches (v : Value) (c d : ControlBlock) :
    (v.construction c).Matches (v.counterpart.construction d) := by
  have harrival := eventsMatch_arrival v
  cases v with
  | probe id actions onDestroy => exact ⟨rfl, rfl⟩
  | picky t n =>
    unfold construction
    dsimp only [counterpart]
    split <;> exact ⟨rfl, rfl⟩
  | _ => exact ⟨harrival, rfl⟩

namespace Value

theorem copyTransfer_matches (v : Value) :
    (v.copyTransfer.construction true).Matches (v.counterpart.copyTransfer.construction true) := by
  cases v with
  | picky t n =>
    unfold Transfer.construction
    dsimp only [counterpart]
    split <;> exact ⟨rfl, rfl⟩
  | collection item items =>
    cases item with
    | tracked => exact ⟨eventsMatch_map (fun _ => rfl) items, rfl⟩
    | int | constInt | u8 => exact ⟨rfl, rfl⟩
  | _ => exact ⟨rfl, rfl⟩

/-- A node that is moved and a shared node that is copied instead announce nothing, and nothing is refused. -/
theorem moveTransfer_matches (v : Value) : (v.moveTransfer.construction v.movesByCopy).Matches
    (v.counterpart.moveTransfer.construction v.counterpart.movesByCopy) := by
  cases v with
  | picky t n => exact (picky t n).copyTransfer_matches
  | collection item items =>
    cases item with
    | tracked => exact ⟨eventsMatch_map (fun _ => rfl) items, rfl⟩
    | int | constInt | u8 => exact ⟨rfl, rfl⟩
  | _ => exact ⟨rfl, rfl⟩

end Value

def Seed.counterpart (seed : Seed) : Seed where
  value := seed.value.counterpart
  unlinked := by
    intro h hh
    rw [Value.next?_counterpart] at hh
    obtain ⟨g, hg, rfl⟩ := Option.mem_map.mp hh
    exact seed.unlinked g hg

def Origin.counterpart : Origin → Origin
  | .arguments seed => .arguments seed.counterpart
  | .moved seed => .moved seed.counterpart
  | .copied seed => .copied seed.counterpart

theorem Seed.IsNew.counterpart {seed : Seed} (h : seed.IsNew) : seed.counterpart.IsNew := by
  refine ⟨(Value.isPassive_counterpart seed.value).trans h.1, ?_⟩
  have htype : seed.counterpart.type = seed.type.counterpart := Value.type_counterpart seed.value
  have hnext : seed.counterpart.value.next? = seed.value.next?.map Handle.counterpart :=
    Value.next?_counterpart seed.value
  rw [htype, hnext, h.2, ← Value.counterpart_blank, Value.next?_counterpart]

namespace Origin

variable {o : Origin} {c d : ControlBlock}

theorem seed_counterpart (o : Origin) : o.counterpart.seed = o.seed.counterpart := by
  cases o <;> rfl

theorem type_counterpart (o : Origin) : o.counterpart.type = o.type.counterpart := by
  unfold type
  rw [seed_counterpart]
  exact Value.type_counterpart o.seed.value

theorem isAllowed_counterpart (h : o.isAllowed) (ho : o.type ≠ .single .snode) : o.counterpart.isAllowed := by
  have htype := o.type_counterpart
  cases o with
  | arguments seed => rfl
  | moved seed => exact (congrArg _ htype).trans ((StoredType.movable_counterpart _).trans h)
  | copied seed => exact (congrArg _ htype).trans (StoredType.copyable_counterpart h ho)

theorem construction_matches (o : Origin) (c d : ControlBlock) :
    (o.construction c).Matches (o.counterpart.construction d) := by
  cases o with
  | arguments seed => exact seed.value.construction_matches c d
  | moved seed => exact seed.value.moveTransfer_matches
  | copied seed => exact seed.value.copyTransfer_matches

end Origin

/-- The same comes of both, and the same is announced. -/
inductive Placement.Matches : Placement → Placement → Prop
  | refused (e : ErrorCode) : Matches (.refused e) (.refused e)
  | threw (t : Thrown) {es es' : List Event} : EventsMatch es es' → Matches (.threw t es) (.threw t es')
  | built {es es' : List Event} : EventsMatch es es' → Matches (.built es) (.built es')

/-- The counterpart of a value is placed where the value is placed. -/
theorem Origin.placement_counterpart (o : Origin) {c d : ControlBlock} (h : c.Frames d) :
    (o.placement c).Matches (o.counterpart.placement d) := by
  have hroom : d.hasRoom o.counterpart.type.layout.size o.counterpart.type.layout.alignment =
      c.hasRoom o.type.layout.size o.type.layout.alignment := by
    unfold ControlBlock.hasRoom
    rw [type_counterpart, StoredType.layout_counterpart, h.address, h.capacity]
  obtain ⟨hevents, hthrown⟩ := o.construction_matches { c with state := .constructing } { d with state := .constructing }
  unfold placement
  rw [hroom, ← h.state, hthrown]
  split
  · exact .refused _
  · split
    · cases (o.construction { c with state := .constructing }).thrown with
      | some t => exact .threw t hevents
      | none => exact .built hevents
    · exact .refused _

theorem madeHandle_counterpart (family : Family) (elem : Ty) (s : SlotId) (o : Origin) :
    (madeHandle family elem s o).counterpart = madeHandle family.counterpart elem.counterpart s o.counterpart := by
  unfold madeHandle Handle.counterpart
  rw [Referent.counterpart_toValue, Origin.type_counterpart]

/-! ### Steps -/

namespace HandleStep

/-- The same step with the families exchanged. -/
def counterpart : HandleStep → HandleStep
  | .empty into family elem => .empty into family.counterpart elem.counterpart
  | .make into s family elem origin throwing =>
    .make into s family.counterpart elem.counterpart origin.counterpart throwing
  | .constructByMove into elem source => .constructByMove into elem.counterpart source
  | .constructByCopy into elem source => .constructByCopy into elem.counterpart source
  | .castByMove into elem source => .castByMove into elem.counterpart source
  | .castByCopy into elem source => .castByCopy into elem.counterpart source
  | st => st

/-- A step that exclusive handles and shared ones have in common, in a program with exclusive handles: it copies no
handle, takes no value out, and changes no value through a handle.  Nothing it makes stores a shared handle. -/
def IsMoveOnly : HandleStep → Prop
  | .empty _ family _ => family = .unique
  | .make _ _ family _ origin _ => family = .unique ∧ origin.type ≠ .single .snode
  | .call _ m => m.modifies = false
  | .constructByCopy .. | .assignByCopy .. | .castByCopy .. | .take .. | .destroyTaken _ | .change .. | .writeItem .. =>
    False
  | .constructByMove .. | .assignByMove .. | .reset _ | .destroy _ | .swap .. | .castByMove .. | .dereference _
  | .readItem .. => True

end HandleStep

end SlotHandles
