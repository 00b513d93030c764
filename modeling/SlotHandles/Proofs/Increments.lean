import SlotHandles.Cell.Format
import Mathlib.Data.List.Count
import Mathlib.Logic.Function.Basic

/-!
# Clients that count in one cell

Any number of clients count in one cell, each by the same loop: it reads the cell, then swaps what it has seen for one
more until this succeeds, and starts over.  Every operation is one step of the cell, and a schedule says whose turn it
is.

Between two operations of a client the cell may have changed, and may have changed back.  No invariant ties the copies
that the clients hold to the cell, and none is needed: a swap that succeeds has compared its copy with the cell in the
same step, so it adds one to what the cell holds at that moment, and nothing else writes (`step_cases`).  Along a
schedule the cell therefore goes up by the number of swaps that succeeded (`increments_add_up`).
-/

namespace SlotHandles

variable {w : Nat}

namespace Cell

variable {c : Cell w} {expected desired : BitVec w}

theorem compareAndSwap_read (c : Cell w) (desired : BitVec w) :
    c.compareAndSwap c.read desired = (⟨true, c.read⟩, ⟨desired⟩) := if_pos rfl

theorem compareAndSwap_of_ne (h : c.read ≠ expected) : c.compareAndSwap expected desired = (⟨false, c.read⟩, c) :=
  if_neg h

theorem compareAndSwap_of_not_done (h : (c.compareAndSwap expected desired).1.done = false) :
    c.compareAndSwap expected desired = (⟨false, c.read⟩, c) := by
  refine compareAndSwap_of_ne fun hread => ?_
  rw [compareAndSwap_done_iff.mpr hread] at h
  cases h

end Cell

/-- The answer to a swap that has written. -/
def CellAnswer.isSuccess : CellAnswer w → Bool
  | .swapped swap => swap.done
  | _ => false

/-- Where a client is in its loop: about to read, or about to swap what it has seen for one more. -/
inductive Counter (w : Nat)
  | reading
  | swapping (seen : BitVec w)
  deriving DecidableEq, Repr

namespace Counter

/-- The operation that the client performs next. -/
def request : Counter w → CellRequest w
  | .reading => .read
  | .swapping seen => .compareAndSwap seen (seen + 1)

/-- Where the client is when the cell has answered. -/
def resume (k : Counter w) : CellAnswer w → Counter w
  | .value bits => .swapping bits
  | .swapped swap => if swap.done then .reading else .swapping swap.expected
  | .written => k

end Counter

/-- A cell and the clients that count in it. -/
structure Counters (ι : Type) (w : Nat) where
  cell : Cell w
  client : ι → Counter w

namespace Counters

variable {ι : Type} [DecidableEq ι] {s : Counters ι w} {i j : ι} {schedule : List ι}

/-- What the cell answers when it is the client's turn. -/
def answer (s : Counters ι w) (i : ι) : CellAnswer w := (s.cell.serve (s.client i).request).1

/-- One client performs its next operation. -/
def step (s : Counters ι w) (i : ι) : Counters ι w where
  cell := (s.cell.serve (s.client i).request).2
  client := Function.update s.client i ((s.client i).resume (s.answer i))

/-- The clients take their turns as the schedule says. -/
def run (s : Counters ι w) : List ι → Counters ι w
  | [] => s
  | i :: schedule => (s.step i).run schedule

/-- What the cell answers along a schedule. -/
def answers (s : Counters ι w) : List ι → List (CellAnswer w)
  | [] => []
  | i :: schedule => s.answer i :: (s.step i).answers schedule

/-- How many swaps succeed along a schedule. -/
def successes (s : Counters ι w) (schedule : List ι) : Nat := (s.answers schedule).countP CellAnswer.isSuccess

/-! ### One step -/

/-- All that a step can be: a read; a swap that succeeds since the copy is what the cell holds, whatever happened to the
cell since the copy was taken; or a swap that fails and brings the copy up to date. -/
theorem step_cases (s : Counters ι w) (i : ι) :
    (s.client i = .reading ∧ s.answer i = .value s.cell.read ∧
      s.step i = ⟨s.cell, Function.update s.client i (.swapping s.cell.read)⟩) ∨
    (s.client i = .swapping s.cell.read ∧ s.answer i = .swapped ⟨true, s.cell.read⟩ ∧
      s.step i = ⟨⟨s.cell.read + 1⟩, Function.update s.client i .reading⟩) ∨
    ((∃ seen, s.client i = .swapping seen ∧ s.cell.read ≠ seen) ∧ s.answer i = .swapped ⟨false, s.cell.read⟩ ∧
      s.step i = ⟨s.cell, Function.update s.client i (.swapping s.cell.read)⟩) := by
  cases hk : s.client i with
  | reading =>
    left
    have hserve : s.cell.serve (s.client i).request = (.value s.cell.read, s.cell) := by rw [hk]; rfl
    simp [answer, step, hserve, Counter.resume]
  | swapping seen =>
    right
    have hserve : s.cell.serve (s.client i).request =
        (.swapped (s.cell.compareAndSwap seen (seen + 1)).1, (s.cell.compareAndSwap seen (seen + 1)).2) := by
      rw [hk]
      rfl
    by_cases hseen : s.cell.read = seen
    · left
      subst hseen
      rw [Cell.compareAndSwap_read] at hserve
      simp [answer, step, hserve, Counter.resume]
    · right
      rw [Cell.compareAndSwap_of_ne hseen] at hserve
      refine ⟨⟨seen, rfl, hseen⟩, ?_⟩
      simp [answer, step, hserve, Counter.resume]

theorem read_step (s : Counters ι w) (i : ι) :
    (s.step i).cell.read = s.cell.read + if (s.answer i).isSuccess then 1 else 0 := by
  obtain ⟨-, hanswer, hstep⟩ | ⟨-, hanswer, hstep⟩ | ⟨-, hanswer, hstep⟩ := s.step_cases i <;>
    simp [hanswer, hstep, CellAnswer.isSuccess, Cell.read]

theorem client_step_of_ne (h : j ≠ i) : (s.step i).client j = s.client j := Function.update_of_ne h ..

/-- A swap that failed left the cell alone and gave the client what the cell holds. -/
theorem step_of_failed {swap : Cell.Swap w} (h : s.answer i = .swapped swap) (hfailed : swap.done = false) :
    swap.expected = s.cell.read ∧ (s.step i).cell = s.cell ∧ (s.step i).client i = .swapping s.cell.read := by
  obtain ⟨-, hanswer, hstep⟩ | ⟨-, hanswer, hstep⟩ | ⟨-, hanswer, hstep⟩ := s.step_cases i
  · rw [hanswer] at h
    cases h
  · rw [hanswer] at h
    cases h
    cases hfailed
  · rw [hanswer] at h
    cases h
    rw [hstep]
    exact ⟨rfl, rfl, Function.update_self ..⟩

omit [DecidableEq ι] in
/-- A client whose copy is what the cell holds succeeds. -/
theorem answer_of_swapping_read (h : s.client i = .swapping s.cell.read) :
    s.answer i = .swapped ⟨true, s.cell.read⟩ := by
  unfold answer
  rw [h]
  exact congrArg (CellAnswer.swapped ·.1) (Cell.compareAndSwap_read s.cell _)

/-! ### Along a schedule -/

theorem successes_cons (s : Counters ι w) (i : ι) (schedule : List ι) :
    s.successes (i :: schedule) = (s.step i).successes schedule + if (s.answer i).isSuccess then 1 else 0 :=
  List.countP_cons ..

/-- Along a schedule the cell goes up by one for each swap that succeeds. -/
theorem read_run (s : Counters ι w) (schedule : List ι) :
    (s.run schedule).cell.read = s.cell.read + BitVec.ofNat w (s.successes schedule) := by
  induction schedule generalizing s with
  | nil => simp [run, successes, answers]
  | cons i schedule ih =>
    calc
      ((s.step i).run schedule).cell.read
      _ = (s.step i).cell.read + BitVec.ofNat w ((s.step i).successes schedule) := ih (s.step i)
      _ = s.cell.read + BitVec.ofNat w (s.successes (i :: schedule)) := by
        rw [read_step, successes_cons]
        cases (s.answer i).isSuccess with
        | false => simp
        | true =>
          rw [if_pos rfl, if_pos rfl, BitVec.ofNat_add, BitVec.add_assoc]
          exact congrArg (s.cell.read + ·) (BitVec.add_comm ..)

theorem client_run_of_notMem (h : i ∉ schedule) : (s.run schedule).client i = s.client i := by
  induction schedule generalizing s with
  | nil => rfl
  | cons j schedule ih =>
    obtain ⟨hj, hrest⟩ := not_or.mp (List.mem_cons.not.mp h)
    exact (ih hrest).trans (client_step_of_ne hj)

/-- A client whose swap failed succeeds at its next turn, unless another client has succeeded in between. -/
theorem answer_of_retry {swap : Cell.Swap w} (h : s.answer i = .swapped swap) (hfailed : swap.done = false)
    (hturn : i ∉ schedule) (hnone : (s.step i).successes schedule = 0) :
    ((s.step i).run schedule).answer i = .swapped ⟨true, s.cell.read⟩ := by
  obtain ⟨-, hcell, hclient⟩ := step_of_failed h hfailed
  have hread : ((s.step i).run schedule).cell.read = s.cell.read := by
    rw [read_run, hnone, hcell]
    exact BitVec.add_zero _
  rw [← hread]
  refine answer_of_swapping_read ?_
  rw [client_run_of_notMem hturn, hclient, hread]

/-- **No update is lost.**  Whatever the clients hold at the start and in whatever order they take their turns, the cell
goes up by the number of swaps that succeeded, modulo two to the power of its width.  A swap that fails leaves the cell
as it is and gives the client what the cell holds, so that the client's next try succeeds unless another client's swap
has succeeded in between.

What the bits mean plays no part in this: for any bits, a try with what a failed swap has returned succeeds as long as
nothing happens in between, and on a later cell exactly if that holds the same bits again. -/
theorem increments_add_up (s : Counters ι w) (schedule : List ι) :
    (s.run schedule).cell.read = s.cell.read + BitVec.ofNat w (s.successes schedule) ∧
    (∀ i swap, (s.run schedule).answer i = .swapped swap → swap.done = false →
      swap.expected = (s.run schedule).cell.read ∧ ((s.run schedule).step i).cell = (s.run schedule).cell ∧
      ((s.run schedule).step i).client i = .swapping (s.run schedule).cell.read ∧
      ∀ others, i ∉ others → ((s.run schedule).step i).successes others = 0 →
        (((s.run schedule).step i).run others).answer i = .swapped ⟨true, (s.run schedule).cell.read⟩) ∧
    ∀ (c : Cell w) (expected desired desired' : BitVec w), (c.compareAndSwap expected desired).1.done = false →
      c.compareAndSwap expected desired = (⟨false, c.read⟩, c) ∧
      (c.compareAndSwap expected desired).2.compareAndSwap (c.compareAndSwap expected desired).1.expected desired' =
        (⟨true, c.read⟩, ⟨desired'⟩) ∧
      ∀ c' : Cell w, (c'.compareAndSwap (c.compareAndSwap expected desired).1.expected desired').1.done = true ↔
        c'.read = c.read := by
  refine ⟨read_run s schedule, fun i swap h hfailed => ?_, fun c expected desired desired' hfailed => ?_⟩
  · obtain ⟨hexpected, hcell, hclient⟩ := step_of_failed h hfailed
    exact ⟨hexpected, hcell, hclient, fun others hturn hnone => answer_of_retry h hfailed hturn hnone⟩
  · have hswap := Cell.compareAndSwap_of_not_done hfailed
    refine ⟨hswap, ?_, fun c' => ?_⟩
    · rw [hswap]
      exact c.compareAndSwap_read desired'
    · rw [hswap]
      exact Cell.compareAndSwap_done_iff

/-- Two clients that are about to read a cell which is about to wrap. -/
def twoCounters : Counters Bool 8 := ⟨⟨255⟩, fun _ => .reading⟩

/-- Both clients read, and the second one swaps first: the cell wraps, the first client fails, and then it succeeds
although the second one has read again in between.  To a swap the bits of a floating-point value that is not equal to
itself are like any others. -/
theorem increments_add_up_twoCounters :
    (twoCounters.run [false, true, true]).cell.read = 255 + BitVec.ofNat 8 (twoCounters.successes [false, true, true]) ∧
    (twoCounters.run [false, true, true]).answer false = .swapped ⟨false, 0⟩ ∧
    false ∉ [true] ∧ ((twoCounters.run [false, true, true]).step false).successes [true] = 0 ∧
    (((twoCounters.run [false, true, true]).step false).run [true]).answer false = .swapped ⟨true, 0⟩ ∧
    ((⟨0x7fc00001⟩ : Cell 32).compareAndSwap 0x7fc00000 1).1 = ⟨false, 0x7fc00001⟩ ∧
    (⟨0x7fc00001⟩ : Cell 32).compareAndSwap 0x7fc00001 1 = (⟨true, 0x7fc00001⟩, ⟨1⟩) := by
  obtain ⟨hread, hfailed, -⟩ := increments_add_up twoCounters [false, true, true]
  obtain ⟨-, -, -, hretry⟩ := hfailed false ⟨false, 0⟩ (by decide) rfl
  obtain ⟨-, -, hbits⟩ := increments_add_up (⟨⟨0⟩, fun _ => .reading⟩ : Counters Bool 32) []
  obtain ⟨-, hagain, -⟩ := hbits ⟨0x7fc00001⟩ 0x7fc00000 1 1 (by decide)
  exact ⟨hread, by decide, by decide, by decide, hretry [true] (by decide) (by decide), by decide, hagain⟩

end Counters

end SlotHandles
