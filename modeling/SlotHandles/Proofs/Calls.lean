import SlotHandles.ControlBlock
import Mathlib.Data.List.Basic

/-!
# Courses of calls

A control block by itself, called in any order: from outside, by the code of a value that is being built, and by a
destructor that runs.  A teardown is not one call then but a bracket: it claims the slot and starts the destructor,
further calls may come from inside of it, and the slot is given back when the destructor returns.

A `Course` is a control block together with its past: the types published in it, the destructors started for them,
and those that still run.  Whatever the calls are, as long as none is reported, the past determines the block
(`Course.Lawful`): the state moves along the cycle of a value's life, the type is there exactly while a value is, and
the count is zero exactly if the last value was torn down by the drop of its last reference.
-/

namespace SlotHandles

/-- The states that may follow a state directly. -/
def Occupancy.successors : Occupancy → List Occupancy
  | .empty => [.constructing]
  | .constructing => [.occupied, .empty]
  | .occupied => [.tearingDown]
  | .tearingDown => [.empty]

namespace ControlBlock

/-- A call of a control block.  `returns` is no call: the destructor that was started last returns. -/
inductive Call
  | tryClaim
  | publish (type : StoredType)
  | abandon
  | teardown
  | addReference
  | dropReference
  | returns
  deriving DecidableEq, Repr

/-- A destructor that was started, and whether the drop of the last counted reference started it. -/
structure Ending where
  type : StoredType
  counted : Bool
  deriving DecidableEq, Repr

/-- A control block and its past.  `running` lists the destructors that have not returned, the innermost first. -/
structure Course where
  block : ControlBlock
  running : List StoredType
  published : List StoredType
  endings : List Ending
  deriving DecidableEq, Repr

namespace Course

abbrev Op := EStateM Violation Course

def start (address capacity : Nat) : Course := ⟨.fresh address capacity, [], [], []⟩

def onBlock {α : Type} (op : ControlBlock.Op α) : Op α := fun c =>
  match op c.block with
  | .ok a b => .ok a { c with block := b }
  | .error v b => .error v { c with block := b }

/-- Claim the slot for destruction and start the destructor. -/
def tearDown (counted : Bool) : Op Unit := do
  match ← onBlock beginTeardown with
  | some t => modify fun c => { c with running := t :: c.running, endings := c.endings ++ [⟨t, counted⟩] }
  | none => onBlock vacate

def perform : Call → Op Unit
  | .tryClaim => discard <| onBlock ControlBlock.tryClaim
  | .publish t => do
    onBlock (ControlBlock.publish t)
    modify fun c => { c with published := c.published ++ [t] }
  | .abandon => onBlock ControlBlock.abandon
  | .teardown => tearDown false
  | .addReference => onBlock ControlBlock.addReference
  | .dropReference => do
    if ← onBlock ControlBlock.dropReference then tearDown true
  | .returns => do
    match (← get).running with
    | [] => pure ()
    | _ :: rest =>
      modify fun c => { c with running := rest }
      onBlock vacate

def performAll : List Call → Op Unit
  | [] => pure ()
  | call :: rest => do
    perform call
    performAll rest

variable {c c' : Course} {call : Call} {calls : List Call}

/-! ### What each call does -/

section

variable {α β : Type}

theorem bind_eq_ok {x : Op α} {f : α → Op β} {b : β} :
    (x >>= f) c = .ok b c' ↔ ∃ a d, x c = .ok a d ∧ f a d = .ok b c' := by
  change EStateM.bind x f c = .ok b c' ↔ _
  unfold EStateM.bind
  cases x c with
  | ok a d => simp
  | error v d => simp

theorem onBlock_eq_ok {op : ControlBlock.Op α} {a : α} :
    onBlock op c = .ok a c' ↔ ∃ b, op c.block = .ok a b ∧ c' = { c with block := b } := by
  unfold onBlock
  cases op c.block with
  | ok a' b => simp [eq_comm]
  | error v b => simp

end

theorem onBlock_tryClaim (c : Course) :
    onBlock ControlBlock.tryClaim c =
      .ok (decide (c.block.state = .empty))
        (if c.block.state = .empty then { c with block := { c.block with state := .constructing } } else c) := by
  unfold onBlock
  rw [tryClaim_apply]
  by_cases h : c.block.state = .empty <;> simp [h]

theorem perform_tryClaim_ok (h : perform .tryClaim c = .ok () c') :
    c.block.state = .empty ∧ c' = { c with block := { c.block with state := .constructing } } ∨ c' = c := by
  obtain ⟨b, d, hb, hd⟩ := bind_eq_ok.mp h
  rw [onBlock_tryClaim] at hb
  cases hb
  cases hd
  by_cases he : c.block.state = .empty
  · exact .inl ⟨he, if_pos he⟩
  · exact .inr (if_neg he)

theorem perform_publish_ok {t : StoredType} (h : perform (.publish t) c = .ok () c') :
    c.block.state = .constructing ∧
      c' = { c with
        block := { c.block with state := .occupied, count := 1, type := some t }
        published := c.published ++ [t] } := by
  obtain ⟨u, d, hb, hd⟩ := bind_eq_ok.mp h
  obtain ⟨b, hop, rfl⟩ := onBlock_eq_ok.mp hb
  cases hd
  rw [publish_apply] at hop
  split at hop
  · next hs =>
    cases hop
    exact ⟨hs, rfl⟩
  · cases hop

theorem perform_abandon_ok (h : perform .abandon c = .ok () c') :
    c.block.state = .constructing ∧ c' = { c with block := { c.block with state := .empty } } := by
  obtain ⟨b, hb, rfl⟩ := onBlock_eq_ok.mp h
  rw [abandon_apply] at hb
  split at hb
  · next hs =>
    cases hb
    exact ⟨hs, rfl⟩
  · cases hb

/-- A teardown starts the destructor of the held value.  Without a type there is none to start. -/
theorem tearDown_ok {counted : Bool} (h : tearDown counted c = .ok () c') :
    c.block.state = .occupied ∧
      ((∃ t, c.block.type = some t ∧
        c' = { c with
          block := { c.block with state := .tearingDown, type := none }, running := t :: c.running,
          endings := c.endings ++ [⟨t, counted⟩] }) ∨
      c.block.type = none ∧ c' = { c with block := { c.block with state := .empty, type := none } }) := by
  obtain ⟨t, d, hb, hd⟩ := bind_eq_ok.mp h
  obtain ⟨b, hop, rfl⟩ := onBlock_eq_ok.mp hb
  rw [beginTeardown_apply] at hop
  split at hop
  · next hs =>
    cases hop
    refine ⟨hs, ?_⟩
    cases ht : c.block.type with
    | some t =>
      rw [ht] at hd
      cases hd
      exact .inl ⟨t, rfl, rfl⟩
    | none =>
      rw [ht] at hd
      cases hd
      exact .inr ⟨rfl, rfl⟩
  · cases hop

theorem perform_addReference_ok (h : perform .addReference c = .ok () c') :
    c.block.count ≠ 0 ∧ c.block.count ≠ 0xffffffff ∧
      c' = { c with block := { c.block with count := c.block.count + 1 } } := by
  obtain ⟨b, hb, rfl⟩ := onBlock_eq_ok.mp h
  rw [addReference_apply] at hb
  split at hb
  · cases hb
  split at hb
  · cases hb
  · next hz hm =>
    cases hb
    exact ⟨hz, hm, rfl⟩

theorem perform_dropReference_ok (h : perform .dropReference c = .ok () c') :
    c.block.count ≠ 0 ∧
      (c.block.count ≠ 1 ∧ c' = { c with block := { c.block with count := c.block.count - 1 } } ∨
      c.block.count = 1 ∧ tearDown true { c with block := { c.block with count := 0 } } = .ok () c') := by
  obtain ⟨last, d, hb, hd⟩ := bind_eq_ok.mp h
  obtain ⟨b, hop, rfl⟩ := onBlock_eq_ok.mp hb
  rw [dropReference_apply] at hop
  split at hop
  · cases hop
  · next hz =>
    cases hop
    refine ⟨hz, ?_⟩
    by_cases h1 : c.block.count = 1
    · rw [h1] at hd
      exact .inr ⟨h1, hd⟩
    · rw [decide_eq_false h1] at hd
      cases hd
      exact .inl ⟨h1, rfl⟩

theorem perform_returns_ok (h : perform .returns c = .ok () c') :
    c.running = [] ∧ c' = c ∨
      ∃ t rest, c.running = t :: rest ∧ c' = { c with block := { c.block with state := .empty }, running := rest } := by
  obtain ⟨d, e, hg, hd⟩ := bind_eq_ok.mp h
  cases hg
  cases hr : c.running with
  | nil =>
    rw [hr] at hd
    cases hd
    exact .inl ⟨rfl, rfl⟩
  | cons t rest =>
    rw [hr] at hd
    cases hd
    exact .inr ⟨t, rest, rfl, rfl⟩

/-! ### The past determines the block -/

/-- There is no value, and the last one, if there was any, was torn down by the drop of its last reference. -/
def Spent (c : Course) : Prop := c.block.state ≠ .occupied ∧ ∀ e ∈ c.endings.getLast?, e.counted

/-- The block is as its past has left it. -/
structure Lawful (c : Course) : Prop where
  type : c.block.type = if c.block.state = .occupied then c.published.getLast? else none
  published : c.block.state = .occupied → c.published ≠ []
  endings : c.endings.map Ending.type = if c.block.state = .occupied then c.published.dropLast else c.published
  running : c.running = if c.block.state = .tearingDown then (c.endings.getLast?.map Ending.type).toList else []
  spent : c.block.count = 0 ↔ c.Spent

theorem lawful_start (address capacity : Nat) : (start address capacity).Lawful := by
  refine ⟨rfl, ?_, rfl, rfl, ?_⟩
  · intro h
    cases h
  · simp [start, fresh, Spent]

namespace Lawful

theorem count_ne_zero (h : c.Lawful) (ho : c.block.state = .occupied) : c.block.count ≠ 0 := by
  intro h0
  exact (h.spent.mp h0).1 ho

/-- Moves between states without a value only touch the state, and the destructor that runs. -/
theorem move (h : c.Lawful) {x : Occupancy} {running : List StoredType} (hs : c.block.state ≠ .occupied)
    (hx : x ≠ .occupied)
    (hr : running = if x = .tearingDown then (c.endings.getLast?.map Ending.type).toList else []) :
    Lawful { c with block := { c.block with state := x }, running := running } := by
  obtain ⟨ht, -, he, -, hc⟩ := h
  rw [if_neg hs] at ht he
  refine ⟨?_, fun h => absurd h hx, ?_, hr, ?_⟩
  · exact ht.trans (if_neg hx).symm
  · exact he.trans (if_neg hx).symm
  · unfold Spent at hc ⊢
    rw [hc]
    simp [hs, hx]

theorem recount (h : c.Lawful) {n : UInt32} (h0 : c.block.count ≠ 0) (hn : n ≠ 0) :
    Lawful { c with block := { c.block with count := n } } := by
  refine ⟨h.type, h.published, h.endings, h.running, ?_⟩
  have hc : ¬ c.Spent := fun hs => h0 (h.spent.mpr hs)
  exact iff_of_false hn hc

theorem publish (h : c.Lawful) (hs : c.block.state = .constructing) (t : StoredType) :
    Lawful { c with
      block := { c.block with state := .occupied, count := 1, type := some t }, published := c.published ++ [t] } := by
  have hr := h.running
  have he := h.endings
  rw [hs, if_neg (by decide)] at hr he
  refine ⟨?_, by simp, ?_, ?_, ?_⟩
  · simp
  · simp [he]
  · simpa using hr
  · simp [Spent]

/-- The destructor that is started is the one of the value that was published last. -/
theorem tearDown (h : c.Lawful) {counted : Bool} {n : UInt32} (hn : n = 0 ↔ counted = true)
    (ht : Course.tearDown counted { c with block := { c.block with count := n } } = .ok () c') :
    c'.Lawful ∧ c.block.state = .occupied ∧ c'.block.state = .tearingDown := by
  obtain ⟨ho, hd⟩ := tearDown_ok ht
  dsimp only at ho hd
  have htype := h.type
  have hendings := h.endings
  rw [if_pos ho] at htype hendings
  obtain ⟨t, hlast⟩ := Option.isSome_iff_exists.mp (List.getLast?_isSome.mpr (h.published ho))
  rcases hd with ⟨u, hu, rfl⟩ | ⟨hnone, -⟩
  · obtain rfl : u = t := Option.some_inj.mp (hu.symm.trans (htype.trans hlast))
    have hrun := h.running
    rw [ho, if_neg (by decide)] at hrun
    refine ⟨⟨rfl, by simp, ?_, ?_, ?_⟩, ho, rfl⟩
    · simp only [List.map_append, List.map_cons, List.map_nil, hendings]
      exact List.dropLast_append_getLast? u hlast
    · simp [hrun]
    · simp [Spent, hn]
  · rw [hnone, hlast] at htype
    cases htype

/-- What a call does to the block, its past accounts for.  The state stays or moves on to a successor. -/
theorem perform (h : c.Lawful) (hc : perform call c = .ok () c') :
    c'.Lawful ∧ (c'.block.state = c.block.state ∨ c'.block.state ∈ c.block.state.successors) := by
  cases call with
  | tryClaim =>
    rcases perform_tryClaim_ok hc with ⟨hs, rfl⟩ | rfl
    · have hr := h.running
      rw [hs] at hr
      refine ⟨h.move (by rw [hs]; decide) (by decide) hr, .inr ?_⟩
      simp [hs, Occupancy.successors]
    · exact ⟨h, .inl rfl⟩
  | publish t =>
    obtain ⟨hs, rfl⟩ := perform_publish_ok hc
    refine ⟨h.publish hs t, .inr ?_⟩
    simp [hs, Occupancy.successors]
  | abandon =>
    obtain ⟨hs, rfl⟩ := perform_abandon_ok hc
    have hr := h.running
    rw [hs] at hr
    refine ⟨h.move (by rw [hs]; decide) (by decide) hr, .inr ?_⟩
    simp [hs, Occupancy.successors]
  | teardown =>
    have hocc := (tearDown_ok hc).1
    have hcounted : c.block.count = 0 ↔ false = true := by simp [h.count_ne_zero hocc]
    obtain ⟨h', hs, hs'⟩ := h.tearDown hcounted hc
    refine ⟨h', .inr ?_⟩
    simp [hs, hs', Occupancy.successors]
  | addReference =>
    obtain ⟨hz, hm, rfl⟩ := perform_addReference_ok hc
    -- only the greatest count wraps to zero
    have hne : c.block.count + 1 ≠ 0 := by grind
    exact ⟨h.recount hz hne, .inl rfl⟩
  | dropReference =>
    obtain ⟨hz, hd⟩ := perform_dropReference_ok hc
    rcases hd with ⟨h1, rfl⟩ | ⟨h1, hd⟩
    · have hne : c.block.count - 1 ≠ 0 := by grind
      exact ⟨h.recount hz hne, .inl rfl⟩
    · obtain ⟨h', hs, hs'⟩ := h.tearDown (n := 0) (by simp) hd
      refine ⟨h', .inr ?_⟩
      simp [hs, hs', Occupancy.successors]
  | returns =>
    rcases perform_returns_ok hc with ⟨-, rfl⟩ | ⟨t, rest, hr, rfl⟩
    · exact ⟨h, .inl rfl⟩
    -- a destructor runs only while the slot is being torn down, and then it is the only one
    · have hrun := h.running
      by_cases hs : c.block.state = .tearingDown
      · rw [if_pos hs, hr] at hrun
        have hrest : rest = [] := by
          cases he : c.endings.getLast?.map Ending.type <;> simp_all
        refine ⟨h.move (by rw [hs]; decide) (by decide) hrest, .inr ?_⟩
        simp [hs, Occupancy.successors]
      · rw [if_neg hs, hr] at hrun
        cases hrun

theorem performAll (h : c.Lawful) (hc : performAll calls c = .ok () c') : c'.Lawful := by
  induction calls generalizing c with
  | nil =>
    cases hc
    exact h
  | cons call rest ih =>
    obtain ⟨_, d, hd, hrest⟩ := bind_eq_ok.mp hc
    exact ih (h.perform hd).1 hrest

/-! ### What the past tells -/

theorem heldType_eq (h : c.Lawful) :
    c.block.heldType = if c.block.state = .occupied then c.published.getLast? else none := by
  unfold heldType
  rw [h.type]
  split <;> rfl

/-- The type is there exactly while there is a value. -/
theorem isSome_type_iff (h : c.Lawful) : c.block.type.isSome ↔ c.block.state = .occupied := by
  rw [h.type]
  by_cases ho : c.block.state = .occupied
  · simpa [ho] using h.published ho
  · simp [ho]

end Lawful

/-- **The life cycle of a control block.**  After any calls, as long as none is reported: a further call leaves the
state or moves it along the cycle; the type is there exactly while there is a value, and is the one published last;
a claim succeeds exactly on an empty slot and otherwise changes nothing; and the destructors that were started are,
in order, those of the published types, but for the last one while its value is there. -/
theorem lifecycle_of_calls {address capacity : Nat} (hc : performAll calls (start address capacity) = .ok () c) :
    (∀ call c', perform call c = .ok () c' →
      c'.block.state = c.block.state ∨ c'.block.state ∈ c.block.state.successors) ∧
    (c.block.type.isSome ↔ c.block.state = .occupied) ∧
    (c.block.heldType.isSome ↔ c.block.state = .occupied) ∧
    (c.block.state = .occupied → c.block.heldType = c.published.getLast?) ∧
    (onBlock ControlBlock.tryClaim c =
      .ok (decide (c.block.state = .empty))
        (if c.block.state = .empty then { c with block := { c.block with state := .constructing } } else c)) ∧
    c.endings.map Ending.type = if c.block.state = .occupied then c.published.dropLast else c.published := by
  have h := (lawful_start address capacity).performAll hc
  refine ⟨fun _ _ hd => (h.perform hd).2, h.isSome_type_iff, ?_, ?_, onBlock_tryClaim c, h.endings⟩
  · rw [h.heldType_eq, ← h.type]
    exact h.isSome_type_iff
  · intro ho
    rw [h.heldType_eq, if_pos ho]

/-- A slot that is used twice.  The destructor of its first value tries to claim it, and adds a reference. -/
def usedTwice : List Call :=
  [.tryClaim, .publish (.single .int), .teardown, .tryClaim, .addReference, .returns, .tryClaim,
    .publish (.single .ticker)]

/-- The slot afterwards: the first value is gone, the second one is there. -/
def usedTwiceCourse : Course :=
  ⟨⟨.occupied, 1, some (.single .ticker), 0, 64⟩, [], [.single .int, .single .ticker], [⟨.single .int, false⟩]⟩

theorem performAll_usedTwice : performAll usedTwice (start 0 64) = .ok () usedTwiceCourse := by
  simp only [usedTwice, performAll, perform]
  rfl

theorem lifecycle_of_calls_usedTwice :
    performAll usedTwice (start 0 64) = .ok () usedTwiceCourse ∧
      (usedTwiceCourse.block.type.isSome ↔ usedTwiceCourse.block.state = .occupied) ∧
      usedTwiceCourse.endings.map Ending.type = [.single .int] := by
  obtain ⟨-, hsome, -, -, -, hendings⟩ := lifecycle_of_calls performAll_usedTwice
  exact ⟨performAll_usedTwice, hsome, hendings⟩

end Course

end ControlBlock

end SlotHandles
