import SlotHandles.Proofs.Construction
import SlotHandles.Proofs.Locality

/-!
# The extent of a step

A step of a handle program names places, and one that makes a handle names a slot.  What the step does is decided by
any footprint that has these and leads nowhere else, and stays within it (`HandleStep.Fits.together`).  A step that makes
a handle stands apart: it builds over what is left in the storage of its slot and never reads it, so it does not matter
where that leads.
-/

namespace SlotHandles

open World

variable {F : Footprint} {w w' u u' : World} {s : SlotId} {p : Holder} {st : HandleStep}

namespace HandleStep

/-- The places the step names. -/
def places : HandleStep → List Holder
  | .empty into _ _ | .make into _ _ _ _ _ => [into]
  | .constructByMove into _ source | .constructByCopy into _ source => [into, source]
  | .assignByMove target source | .assignByCopy target source => [target, source]
  | .reset p | .destroy p => [p]
  | .swap p q => [p, q]
  | .castByMove into _ source | .castByCopy into _ source => [into, source]
  | .take into p => [.within into, p]
  | .destroyTaken name => [.within name]
  | .dereference p | .change p _ | .readItem p _ | .writeItem p _ _ | .call p _ => [p]

/-- The slot in which the step makes a value. -/
def makesIn? : HandleStep → Option SlotId
  | .make _ s _ _ _ _ => some s
  | _ => none

/-- How the step ends. -/
def outcome (st : HandleStep) (w : World) : Except Failure Answer :=
  match st.run w with
  | .ok a _ => .ok a
  | .error f _ => .error f

/-- The world that the step leaves, however it ends. -/
def after (st : HandleStep) (w : World) : World :=
  match st.run w with
  | .ok _ w' | .error _ w' => w'

theorem outcome_after_of_ok {a : Answer} (h : st.run w = .ok a w') : st.outcome w = .ok a ∧ st.after w = w' := by
  unfold outcome after
  rw [h]
  exact ⟨rfl, rfl⟩

theorem outcome_after_of_error {f : Failure} (h : st.run w = .error f w') :
    st.outcome w = .error f ∧ st.after w = w' := by
  unfold outcome after
  rw [h]
  exact ⟨rfl, rfl⟩

theorem Completes.after (h : st.Completes w w') : st.after w = w' := by
  rcases h with ⟨a, h⟩ | ⟨t, h⟩
  · exact (outcome_after_of_ok h).2
  · exact (outcome_after_of_error h).2

/-- The step goes the same way from the two worlds. -/
def Agrees (F : Footprint) (st : HandleStep) (w u : World) : Prop :=
  st.outcome w = st.outcome u ∧ Together F w (st.after w) u (st.after u)

theorem agrees_of_ok {a : Answer} (h : st.run w = .ok a w') (h' : st.run u = .ok a u') (ht : Together F w w' u u') :
    st.Agrees F w u := by
  obtain ⟨ho, hafter⟩ := outcome_after_of_ok h
  obtain ⟨ho', hafter'⟩ := outcome_after_of_ok h'
  unfold Agrees
  rw [ho, ho', hafter, hafter']
  exact ⟨rfl, ht⟩

theorem agrees_of_error {f : Failure} (h : st.run w = .error f w') (h' : st.run u = .error f u')
    (ht : Together F w w' u u') : st.Agrees F w u := by
  obtain ⟨ho, hafter⟩ := outcome_after_of_error h
  obtain ⟨ho', hafter'⟩ := outcome_after_of_error h'
  unfold Agrees
  rw [ho, ho', hafter, hafter']
  exact ⟨rfl, ht⟩

theorem agrees_of_accord {good : Answer → Prop} (h : Accord F good st.run st.run w u) : st.Agrees F w u := by
  unfold Accord at h
  cases e : st.run w with
  | ok a w' =>
    cases e' : st.run u with
    | ok b u' =>
      rw [e, e'] at h
      obtain ⟨rfl, -, ht, -⟩ := h
      exact agrees_of_ok e e' ht
    | error => rw [e, e'] at h; exact h.elim
  | error f w' =>
    cases e' : st.run u with
    | ok => rw [e, e'] at h; exact h.elim
    | error g u' =>
      rw [e, e'] at h
      obtain ⟨rfl, ht⟩ := h
      exact agrees_of_error e e' ht

/-- The footprint has what the step names, and leads nowhere else. -/
structure Fits (F : Footprint) (w : World) (st : HandleStep) : Prop where
  places : ∀ p ∈ st.places, p.In F
  slot : ∀ s, st.makesIn? = some s → s ∈ F.slots
  closed : st.makesIn? = none → w.Closed F

end HandleStep

/-! ### Steps that can be written -/

theorem Holder.In.held (hp : p.In F) (hown : p.isOwn) : p ∈ F.held := by
  cases p with
  | named n | result n => exact hp
  | inside s | within n => cases hown

theorem World.Vacant.congr (hv : w.Vacant p) (h : u.live? p = w.live? p) : u.Vacant p := by
  rw [live?_own hv.1, live?_own hv.1] at h
  exact ⟨hv.1, h.trans hv.2⟩

/-- Whether a step can be written is decided by the handles and the values that it names, and by which slots there
are. -/
theorem HandleStep.Admissible.congr (ha : st.Admissible w) (hlive : ∀ p ∈ st.places, u.live? p = w.live? p)
    (hvalues : ∀ name, .within name ∈ st.places → u.values.find? name = w.values.find? name)
    (hslot : ∀ s, st.makesIn? = some s → (u.slots.find? s).isSome = (w.slots.find? s).isSome) : st.Admissible u := by
  have first : ∀ {p : Holder} {rest : List Holder}, st.places = p :: rest → u.live? p = w.live? p := fun e =>
    hlive _ (e ▸ List.mem_cons_self)
  have second : ∀ {p q : Holder} {rest : List Holder}, st.places = p :: q :: rest → u.live? q = w.live? q := fun e =>
    hlive _ (e ▸ List.mem_cons_of_mem _ List.mem_cons_self)
  cases st with
  | empty into family elem => exact ⟨ha.1.congr (first rfl), ha.2⟩
  | make into s family elem origin throwing =>
    obtain ⟨hinto, hx, hrest⟩ := ha
    exact ⟨hinto.congr (first rfl), (hslot s rfl).trans hx, hrest⟩
  | constructByMove into elem source | constructByCopy into elem source =>
    obtain ⟨hinto, k, hk, hrest⟩ := ha
    exact ⟨hinto.congr (first rfl), k, (second rfl).trans hk, hrest⟩
  | assignByMove target source | assignByCopy target source | swap target source =>
    obtain ⟨a, b, hta, hsb, hrest⟩ := ha
    exact ⟨a, b, (first rfl).trans hta, (second rfl).trans hsb, hrest⟩
  | reset p =>
    obtain ⟨k, hk⟩ := ha
    exact ⟨k, (first rfl).trans hk⟩
  | destroy p =>
    obtain ⟨hown, k, hk⟩ := ha
    refine ⟨hown, k, ?_⟩
    rw [← live?_own hown, first rfl, live?_own hown]
    exact hk
  | castByMove into elem source =>
    obtain ⟨hinto, hconcrete, k, hk⟩ := ha
    exact ⟨hinto.congr (first rfl), hconcrete, k, (second rfl).trans hk⟩
  | castByCopy into elem source =>
    obtain ⟨hinto, hconcrete, k, hk, hrest⟩ := ha
    exact ⟨hinto.congr (first rfl), hconcrete, k, (second rfl).trans hk, hrest⟩
  | take into p =>
    obtain ⟨hinto, k, hk, hrest⟩ := ha
    exact ⟨(hvalues into List.mem_cons_self).trans hinto, k, (second rfl).trans hk, hrest⟩
  | destroyTaken name =>
    obtain ⟨v, hv⟩ := ha
    exact ⟨v, (hvalues name List.mem_cons_self).trans hv⟩
  | dereference p | readItem p i | writeItem p i n =>
    obtain ⟨k, hk, hrest⟩ := ha
    exact ⟨k, (first rfl).trans hk, hrest⟩
  | change p f =>
    obtain ⟨hkeeps, k, hk, hrest⟩ := ha
    exact ⟨hkeeps, k, (first rfl).trans hk, hrest⟩
  | call p m =>
    obtain ⟨k, face, hk, hrest⟩ := ha
    exact ⟨k, face, (first rfl).trans hk, hrest⟩

/-- A step can be written in every world that looks the same on a footprint that fits. -/
theorem HandleStep.Fits.admissible (hf : st.Fits F w) (ha : st.Admissible w) (h : w.Coincide F u) :
    st.Admissible u :=
  ha.congr (fun p hp => (h.live? (hf.places p hp)).symm) (fun name hn => (h.values name (hf.places _ hn)).symm)
    fun s hs => by rw [h.slots s (hf.slot s hs)]

theorem HandleStep.Fits.first (hf : st.Fits F w) {rest : List Holder} (h : st.places = p :: rest) : p.In F :=
  hf.places p (h ▸ List.mem_cons_self)

theorem HandleStep.Fits.second (hf : st.Fits F w) {q : Holder} {rest : List Holder} (h : st.places = p :: q :: rest) :
    q.In F := hf.places q (h ▸ List.mem_cons_of_mem _ List.mem_cons_self)

/-! ### Steps that are run -/

theorem local_run (ha : st.Admissible w) (hf : st.Fits F w) (hn : st.makesIn? = none) :
    Local F (fun _ => True) st.run := by
  have done : ∀ {a : Act Unit}, Local F (fun _ => True) a →
      Local F (fun _ => True) (do a; return .done : Act Answer) := fun h => h.bind fun _ _ => local_pure trivial
  cases st with
  | make into s family elem origin throwing => cases hn
  | empty into family elem => exact local_keepHandle (hf.first rfl) (Handle.leadsInto_empty ..)
  | constructByMove into elem source =>
    exact (local_moveHandle (hf.second rfl) elem).bind fun _ hh => local_keepHandle (hf.first rfl) hh
  | constructByCopy into elem source =>
    exact (local_copyHandle (hf.second rfl) elem).bind fun _ hh => local_keepHandle (hf.first rfl) hh
  | assignByMove target source => exact done (local_assignByMove (hf.first rfl) (hf.second rfl))
  | assignByCopy target source => exact done (local_assignByCopy (hf.first rfl) (hf.second rfl))
  | reset p => exact done (local_resetHandle (hf.first rfl))
  | destroy p => exact done (local_destroyHandle ha.1 (hf.first rfl))
  | swap p q => exact done (local_swapHandles (hf.first rfl) (hf.second rfl))
  | castByMove into elem source =>
    exact (local_castByMove (hf.second rfl) elem).bind fun _ hh => local_keepHandle (hf.first rfl) hh
  | castByCopy into elem source =>
    exact (local_castByCopy (hf.second rfl) elem).bind fun _ hh => local_keepHandle (hf.first rfl) hh
  | take into p =>
    have hinto : (Region.named into).In F := hf.first (p := .within into) rfl
    exact (local_takeValue (hf.second rfl)).bind fun _ hv => (local_writeObject hinto hv).bind fun _ _ =>
      local_pure trivial
  | destroyTaken name => exact done (local_destroyNamed (hf.first (p := .within name) rfl))
  | dereference p => exact (local_readHandle (hf.first rfl)).bind fun _ hh => local_lookThrough hh
  | change p f => exact (local_readHandle (hf.first rfl)).bind fun _ hh => done (local_changeThrough hh ha.1)
  | readItem p i =>
    exact (local_readHandle (hf.first rfl)).bind fun _ hh => (local_readItem hh i).bind fun _ _ => local_pure trivial
  | writeItem p i n => exact (local_readHandle (hf.first rfl)).bind fun _ hh => done (local_writeItem hh i n)
  | call p m =>
    exact (local_readHandle (hf.first rfl)).bind fun _ hh => (local_dereferenceView hh).bind fun _ hv =>
      (local_callThrough hv m).bind fun _ _ => local_pure trivial

theorem World.Coincide.setHandle_own (h : w.Coincide F u) (hown : p.isOwn) (hp : p ∈ F.held) (g : Handle) :
    Together F w (w.setHandle p g) u (u.setHandle p g) := by
  rw [World.setHandle_own hown, World.setHandle_own hown]
  exact h.putHeld hp g

/-- A value is built in two worlds alike. -/
theorem World.Coincide.built (h : w.Coincide F u) (hs : s ∈ F.slots) (v : Value) {es : List Event} (hq : Quiet es) :
    Together F w (w.built s v es) u (u.built s v es) := by
  have hmark : ∀ x, x ∉ F.slots → lifeOf x [.constructed s v.type] = [] := by
    intro x hx
    have hsx : s ≠ x := fun e => hx (e ▸ hs)
    simp [lifeOf, Event.marks, hsx]
  have hlog := h.log es fun x _ => hq x
  have hstore := hlog.coincide.setStorage hs v
  unfold World.built
  rw [← h.controlOf hs]
  have hpublish := hstore.coincide.setControl hs
    { w.controlOf s with state := .occupied, count := 1, type := some v.type }
  exact ((hlog.trans hstore).trans hpublish).trans (hpublish.coincide.log _ hmark)

/-- A handle is made alike wherever its slot has the same block: nothing else is looked at. -/
theorem agrees_make {into : Holder} {family : Family} {elem : Ty} {o : Origin} {throwing : Bool}
    (ha : (HandleStep.make into s family elem o throwing).Admissible w) (hinto : into ∈ F.held) (hs : s ∈ F.slots)
    (h : w.Coincide F u) (hw : w.slots.Distinct) (hu : u.slots.Distinct) :
    (HandleStep.make into s family elem o throwing).Agrees F w u := by
  obtain ⟨hvacant, hx, -, -, hn⟩ := ha
  have hx' : (u.slots.find? s).isSome := h.slots s hs ▸ hx
  have hrun := run_make_apply into family elem hw hx hn throwing
  have hrun' := run_make_apply into family elem hu hx' hn throwing
  rw [← h.controlOf hs] at hrun'
  have hq := quiet_placement o (w.controlOf s)
  cases hp : o.placement (w.controlOf s) with
  | refused e =>
    rw [hp] at hrun hrun'
    cases throwing with
    | true => exact HandleStep.agrees_of_error hrun hrun' (.refl h)
    | false => exact HandleStep.agrees_of_ok hrun hrun' (.refl h)
  | threw t es =>
    rw [hp] at hrun hrun' hq
    exact HandleStep.agrees_of_error hrun hrun' (h.log es fun x _ => hq x)
  | built es =>
    rw [hp] at hrun hrun' hq
    have hbuilt := h.built hs o.seed.value hq
    have hput := hbuilt.coincide.setHandle_own hvacant.1 hinto (madeHandle family elem s o)
    exact HandleStep.agrees_of_ok hrun hrun' (hbuilt.trans hput)

/-- From two worlds that look the same on a footprint that fits, a step goes the same way, and stays within it. -/
theorem HandleStep.Fits.agrees (hf : st.Fits F w) (ha : st.Admissible w) (h : w.Coincide F u)
    (hw : w.slots.Distinct) (hu : u.slots.Distinct) : st.Agrees F w u := by
  cases hm : st.makesIn? with
  | none => exact agrees_of_accord (local_run ha hf hm w u ⟨h, hf.closed hm, hw, hu⟩)
  | some s =>
    cases st with
    | make into s' family elem o throwing =>
      exact agrees_make ha ((hf.first rfl).held ha.1.1) (hf.slot s' rfl) h hw hu
    | _ => cases hm

end SlotHandles
