import SlotHandles.Proofs.Simulation

/-!
# The two families agree

A program that only moves handles cannot tell exclusive handles from shared ones.  If no assignment tears down a value
that stores its own target or source, then the program with shared handles in the place of the exclusive ones can be run
just as well, and step by step it shows the counterpart of what the other shows (`families_agree_on_move_only_programs`).
The use counts of its handles are never greater than one.
-/

namespace SlotHandles

open World

variable {slots : Table SlotId Slot} {w u : World} {p : Holder} {k : Handle} {N : Multiset Handle}

/-- No assignment of the program tears down a value that stores its own target or source. -/
def Undisturbing : List HandleStep → World → Prop
  | [], _ => True
  | st :: rest, w => st.Undisturbed w (st.after w) ∧ ((st.stage w).goesOn → Undisturbing rest (st.after w))

/-- What can be seen of the second world is the counterpart of what can be seen of the first. -/
structure World.ShowsCounterparts (w u : World) : Prop where
  state : ∀ s, (u.controlOf s).state = (w.controlOf s).state
  type : ∀ s, u.typeIn s = (w.typeIn s).map .counterpart
  stored : ∀ s, (w.controlOf s).state = .occupied → u.storageOf s = (w.storageOf s).map .counterpart
  live : ∀ p, u.live? p = (w.live? p).map .counterpart
  handle : ∀ p h k, w.live? p = some h → u.live? p = some k → k.isSome = h.isSome ∧ k.ref.address = h.ref.address
  order : ∀ p q h h' k k', w.live? p = some h → w.live? q = some h' → u.live? p = some k → u.live? q = some k' →
    k.compare k' = h.compare h'
  events : EventsMatch w.trace u.trace

/-- The stages end alike, in worlds that show counterparts; in the second one no handle has a use count above one. -/
structure Stage.IsCounterpart (g g' : Stage) : Prop where
  outcome : g'.outcome = HandleStep.counterpartOutcome g.outcome
  world : g.world.ShowsCounterparts g'.world
  useCount : g.goesOn → ∀ p k, g'.world.live? p = some k → g'.world.useCount k ≤ 1

namespace World.Mirrors

theorem showsCounterparts (hm : w.Mirrors [] u) : w.ShowsCounterparts u := by
  have hlive : ∀ {p : Holder} {h k : Handle}, w.live? p = some h → u.live? p = some k → k = h.counterpart := by
    intro p h k hl hl'
    exact Option.some_inj.mp (hl'.symm.trans (hm.live_counterpart hl))
  refine ⟨fun s => (hm.frames s).state.symm, hm.type, ?_, fun p => hm.live p List.not_mem_nil, ?_, ?_, hm.trace⟩
  · intro s ho
    obtain ⟨v, -, hv, -⟩ := hm.stored s ho
    rw [hm.storageOf List.not_mem_nil ho hv, hv]
    rfl
  · intro p h k hl hl'
    obtain rfl := hlive hl hl'
    exact ⟨rfl, Referent.address_counterpart h.ref⟩
  · intro p q h h' k k' hp hq hp' hq'
    obtain rfl := hlive hp hp'
    obtain rfl := hlive hq hq'
    rfl

/-- A shared handle that mirrors an exclusive one is alone, or empty. -/
theorem useCount_le_one (hm : w.Mirrors [] u) (hu : u.Sound N) (hl : u.live? p = some k) : u.useCount k ≤ 1 := by
  unfold useCount
  cases hs : k.slot with
  | none => exact Nat.zero_le 1
  | some s =>
    have hcount := hm.count s ((hu.refersIn_of_live hl).occupied hs)
    unfold countOf
    dsimp only
    rw [hcount]
    rfl

theorem ofSlots (hs : AllEmpty slots) : (World.ofSlots slots).Mirrors [] (.ofSlots slots) := by
  have hidle : ∀ s, ((World.ofSlots slots).controlOf s).state ≠ .occupied := by
    intro s
    rw [hs.state s]
    decide
  have hnone : ∀ p, (World.ofSlots slots).live? p = none := by
    intro p
    cases p with
    | inside s => exact nestedIn_of_not_occupied (hidle s)
    | named n | result n | within n => rfl
  refine ⟨rfl, fun s => .refl _, ?_, ?_, ?_, ?_, ?_, eventsMatch_nil⟩
  · intro s
    rw [typeIn_of_not_occupied (hidle s)]
    rfl
  · exact fun s ho => absurd ho (hidle s)
  · exact fun s ho => absurd ho (hidle s)
  · intro p _
    rw [hnone p]
    rfl
  · intro p h hl
    rw [hnone p] at hl
    cases hl

/-- Programs go along from worlds that mirror each other. -/
theorem stages (hs : AllEmpty slots) {program : List HandleStep} (hp : ∀ st ∈ program, st.IsMoveOnly)
    (hr : Reachable slots w) (hr' : Attained slots u) (hm : w.Mirrors [] u) (hf : Feasible program w)
    (hund : Undisturbing program w) :
    Feasible (program.map .counterpart) u ∧
      List.Forall₂ Stage.IsCounterpart (SlotHandles.stages program w)
        (SlotHandles.stages (program.map .counterpart) u) := by
  -- along the program; both worlds stay those of handle programs
  induction program generalizing w u with
  | nil => exact ⟨trivial, .nil⟩
  | cons st rest ih =>
    obtain ⟨ha, hrest⟩ := hf
    obtain ⟨hst, hundrest⟩ := hund
    obtain ⟨hw, -⟩ := hr.sound hs
    obtain ⟨⟨lost, hu⟩, -⟩ := hr'.sound hs
    have hmove := hp st List.mem_cons_self
    have ha' := hm.admissible ha hmove
    obtain ⟨houtcome, hm'⟩ := hm.step hw hu ha hmove hst
    have hgoes : (st.counterpart.stage u).goesOn = (st.stage w).goesOn := by
      unfold HandleStep.stage Stage.goesOn
      dsimp only
      rw [houtcome]
      cases st.outcome w with
      | ok a => rfl
      | error f => cases f <;> rfl
    have hafter : (st.stage w).goesOn → Attained slots (st.counterpart.after u) := fun hgo =>
      .step _ hr' ha' (st.counterpart.completes_of_goesOn (hgoes.trans hgo))
    have htail := fun hgo : (st.stage w).goesOn => ih (fun st' hst' => hp st' (List.mem_cons_of_mem _ hst'))
      (.step st hr ha (st.completes_of_goesOn hgo) hst) (hafter hgo) hm' (hrest hgo) (hundrest hgo)
    refine ⟨⟨ha', fun hgo => (htail (hgoes.symm.trans hgo)).1⟩, ?_⟩
    rw [List.map_cons]
    unfold SlotHandles.stages
    refine .cons ⟨houtcome, hm'.showsCounterparts, ?_⟩ ?_
    · intro hgo p k hl
      obtain ⟨⟨lost', hu'⟩, -⟩ := (hafter hgo).sound hs
      exact hm'.useCount_le_one hu' hl
    · rw [hgoes]
      split
      · next hgo => exact (htail hgo).2
      · exact .nil

end World.Mirrors

/-- **The two families agree on programs that only move.**  If a program with exclusive handles that only moves them can be
run over empty slots, and no assignment tears down a value that stores its own target or source, then the same program
with shared handles can be run.  Step by step it ends in the same way, with the same error, exception or violation, and
leaves the same states and counterparts of the types, values and handles; the same values were constructed and destroyed
in the same order; and no use count is greater than one. -/
theorem families_agree_on_move_only_programs (hs : AllEmpty slots) (program : List HandleStep)
    (hp : ∀ st ∈ program, st.IsMoveOnly) (hf : Feasible program (.ofSlots slots))
    (hu : Undisturbing program (.ofSlots slots)) :
    Feasible (program.map .counterpart) (.ofSlots slots) ∧
      List.Forall₂ Stage.IsCounterpart (stages program (.ofSlots slots))
        (stages (program.map .counterpart) (.ofSlots slots)) :=
  World.Mirrors.stages hs hp .start .start (.ofSlots hs) hf hu

/-! ### A chain of two -/

/-- Two nodes are made and linked, the first is looked at, and the chain is reset.  The handle that was moved into the
first node is empty, so looking through it ends the program. -/
def chainOfTwo : List HandleStep :=
  [.make (.named "a") (.numbered 0) .unique (.ofKind .node) (.arguments (Seed.ofNode 1)) false,
    .make (.named "b") (.numbered 1) .unique (.ofKind .node) (.arguments (Seed.ofNode 2)) true,
    .assignByMove (.inside (.numbered 0)) (.named "b"), .dereference (.named "a"), .reset (.named "a"),
    .dereference (.named "b")]

theorem families_agree_on_move_only_programs_chain : AllEmpty twoSlots ∧ (∀ st ∈ chainOfTwo, st.IsMoveOnly) ∧
    Feasible chainOfTwo (.ofSlots twoSlots) ∧ Undisturbing chainOfTwo (.ofSlots twoSlots) ∧
    Feasible (chainOfTwo.map .counterpart) (.ofSlots twoSlots) ∧
    List.Forall₂ Stage.IsCounterpart (stages chainOfTwo (.ofSlots twoSlots))
      (stages (chainOfTwo.map .counterpart) (.ofSlots twoSlots)) ∧
    (stages chainOfTwo (.ofSlots twoSlots)).length = 6 := by
  have hmove : ∀ st ∈ chainOfTwo, st.IsMoveOnly := by
    intro st hst
    simp only [chainOfTwo, List.mem_cons, List.not_mem_nil, or_false] at hst
    rcases hst with rfl | rfl | rfl | rfl | rfl | rfl
    · exact ⟨rfl, show StoredType.single .node ≠ .single .snode by decide⟩
    · exact ⟨rfl, show StoredType.single .node ≠ .single .snode by decide⟩
    all_goals exact trivial
  have hfeasible : Feasible chainOfTwo (.ofSlots twoSlots) :=
    ⟨⟨⟨rfl, rfl⟩, rfl, rfl, rfl, rfl, rfl⟩, fun _ => ⟨⟨⟨rfl, rfl⟩, rfl, rfl, rfl, rfl, rfl⟩, fun _ =>
      ⟨⟨_, _, rfl, rfl, rfl, rfl⟩, fun _ => ⟨⟨_, rfl, rfl⟩, fun _ => ⟨⟨_, rfl⟩, fun _ => ⟨⟨_, rfl, rfl⟩, fun _ =>
        trivial⟩⟩⟩⟩⟩⟩
  have hundisturbing : Undisturbing chainOfTwo (.ofSlots twoSlots) :=
    ⟨HandleStep.undisturbed_of_assigned rfl, fun _ => ⟨HandleStep.undisturbed_of_assigned rfl, fun _ =>
      ⟨HandleStep.undisturbed_of_trace rfl, fun _ => ⟨HandleStep.undisturbed_of_assigned rfl, fun _ =>
        ⟨HandleStep.undisturbed_of_assigned rfl, fun _ => ⟨HandleStep.undisturbed_of_assigned rfl, fun _ =>
          trivial⟩⟩⟩⟩⟩⟩
  obtain ⟨hfeasible', hstages⟩ :=
    families_agree_on_move_only_programs allEmpty_twoSlots chainOfTwo hmove hfeasible hundisturbing
  exact ⟨allEmpty_twoSlots, hmove, hfeasible, hundisturbing, hfeasible', hstages, rfl⟩

end SlotHandles
