import SlotHandles.Proofs.Attained
import SlotHandles.Proofs.Extent

/-!
# Programs in stages

A program is a list of steps, and running it goes through one stage for each step: how the step ended, and the world it
left.  After an answer or an exception the program goes on; a violation ends it.  What is said of every list of steps
holds of programs that choose their next step by what they have seen, since such a program takes some list of steps.
-/

namespace SlotHandles

variable {slots : Table SlotId Slot} {w w' : World} {st : HandleStep}

structure Stage where
  outcome : Except Failure Answer
  world : World

/-- The step ended with an answer or an exception, so the program goes on. -/
def Stage.goesOn (g : Stage) : Bool :=
  match g.outcome with
  | .ok _ | .error (.exception _) => true
  | .error _ => false

def HandleStep.stage (st : HandleStep) (w : World) : Stage := ⟨st.outcome w, st.after w⟩

/-- The stages of a program, up to the one that ends it. -/
def stages : List HandleStep → World → List Stage
  | [], _ => []
  | st :: rest, w => st.stage w :: if (st.stage w).goesOn then stages rest (st.after w) else []

/-- Every step of the program can be written where the program comes to it. -/
def Feasible : List HandleStep → World → Prop
  | [], _ => True
  | st :: rest, w => st.Admissible w ∧ ((st.stage w).goesOn → Feasible rest (st.after w))

theorem HandleStep.completes_of_goesOn (h : (st.stage w).goesOn) : st.Completes w (st.after w) := by
  unfold HandleStep.stage Stage.goesOn HandleStep.outcome at h
  unfold HandleStep.after
  cases hrun : st.run w with
  | ok a w' => exact .returned a hrun
  | error f w' =>
    rw [hrun] at h
    cases f with
    | exception t => exact .threw t hrun
    | violation v | nullAccess => cases h

end SlotHandles
