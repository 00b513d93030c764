import SlotHandles.Session.Chains
import SlotHandles.Session.Handles
import SlotHandles.Session.Slots
import SlotHandles.Session.Views

/-!
# Running a session

A session runs its steps in order until one of them reports a violation.  If none does, it drops the bag, the
results and the variables, and destroys its slots.  Each step, and the end, shows what was announced and which
control blocks look different from before.
-/

namespace SlotHandles

def Step.run : Step → Run Reply
  | .make h s family elem seed via throwing => Run.makeHandle h s family elem seed via throwing
  | .tryMake r s family elem seed => Run.makeResult r s family elem seed
  | .makeStatic h site argument => Run.makeAtSite h site argument
  | .empty h family elem => do
    let new := Handle.empty family elem
    let i ← Run.infoOf new
    Run.store h new
    return .info i
  | .adopt h s family type => Run.adoptHandle h s family type
  | .resultInfo r => return .result (← Run.resultCode r)
  | .resultAccess r access => Run.accessResult r access
  | .resultDrop r => Run.dropResult r
  | .info h => return .info (← Run.infoOf (← Run.handle h))
  | .drop h => do
    let _ ← Run.handle h
    Run.remove (.named h)
    return .null
  | .reset h => do
    let _ ← Run.handle h
    Run.act (resetHandle (.named h))
    return .info (← Run.infoAt (.named h))
  | .cloneMany h n => Run.cloneMany h n
  | .bagDrop n => Run.bagDrop n
  | .dereference h => Run.dereferenceHandle h
  | .assignField h d => Run.assignField h d
  | .index h i => Run.index h i
  | .setIndex h i d => Run.setIndex h i d
  | .span h => Run.span h
  | .take h => Run.take h
  | .cast h into type mode => Run.cast h into type mode
  | .compareNull h => return .nullComparison (SlotId.compareOptional (← Run.handle h).slot none)
  | .stream h => return .stream (← Run.handle h).ref.address
  | .call h m => Run.call h m
  | .viewOf h => Run.viewOf h
  | .reseat h view => Run.reseat h view
  | .link h child mode => Run.link h child mode
  | .next h into mode => Run.next h into mode
  | .pop h => Run.pop h
  | .ids h => Run.ids h
  | .vaultCell h field request => Run.vaultCell h field request
  | .construct h source elem mode => Run.construct h source elem mode
  | .assign h source mode => Run.assign h source mode
  | .swap h source => Run.swap h source
  | .compare h source => Run.compare h source
  | .hash h source => Run.hash h source
  | .ownerSet handles => Run.ownerSet handles
  | .value v seed => Run.makeValue v seed
  | .valueGet v => Run.showValue v
  | .viewValue view face v => Run.viewValue view face v
  | .viewEmpty view face => Run.makeEmptyView view face
  | .viewCopy view into => Run.copyView view into
  | .viewInfo view => Run.viewInfo view
  | .viewCall view m isConst => Run.callView view m isConst
  | .slot s => Run.inspectSlot s
  | .slotDestroy s => Run.destroySlot s
  | .control s c => Run.callControl s c
  | .place s seed via => Run.placeIn s seed via
  | .stored s type => Run.storedIn s type

namespace Session

abbrev Snapshot := Table SlotId String

def snapshot (s : Session) : Snapshot := s.world.slots.map fun (id, slot) => (id, slot.control.summary)

/-- The control blocks that look different from before. -/
def changes (before after : Snapshot) : Snapshot := after.filter fun (id, now) => before.find? id ≠ some now

def announcements (s : Session) : List String := s.world.trace.filterMap Event.text?

/-- The session with nothing announced. -/
def quiet (s : Session) : Session := { s with world.trace := [] }

/-- The record of one step: its answer, or the violation that ended the session. -/
inductive Entry
  | answered (reply : Reply) (log : List String) (changed : Snapshot)
  | violated (cause : Violation) (log : List String)

/-- The record of the end of a session.  A violation while handles are dropped leaves the slots alone. -/
structure Ending where
  log : List String
  changed : Option Snapshot
  cause : Option Violation

/-- The record of a session.  A session that was ended by a violation has no ending. -/
structure Transcript where
  entries : List Entry
  ending : Option Ending

def runStep (step : Step) (s : Session) : Entry × Session :=
  let answer (reply : Reply) (after : Session) : Entry × Session :=
    (.answered reply after.announcements (changes s.snapshot after.snapshot), after)
  match step.run s.quiet with
  | .ok reply after => answer reply after
  | .error (.refused r) after => answer (.refused r) after
  | .error (.failed (.exception t)) after => answer (.thrown t) after
  | .error (.failed (.violation v)) after => (.violated v after.announcements, after)
  | .error (.failed .nullAccess) after => answer (.refused .badInput) after

/-- Drop every handle: the bag from the oldest to the newest, the results and the variables by name. -/
def dropAll : Run Unit := do
  let w ← Run.world
  modify fun s => { s with world.bag := [] }
  w.bag.reverse.forM fun h => Run.act (release h)
  let keys := w.held.map Prod.fst
  let results := keys.filterMap fun | .result name => some name | _ => none
  let vars := keys.filterMap fun | .named name => some name | _ => none
  (results.mergeSort).forM fun name => Run.remove (.result name)
  (vars.mergeSort).forM fun name => Run.remove (.named name)

def destroySlots : Run Unit := do
  (← Run.world).slots.forM fun (id, _) =>
    if id.isStatic then pure () else Run.act (onControl id ControlBlock.destroy)

/-- The violation a halt stands for. -/
def Halt.cause? : Halt → Option Violation
  | .failed (.violation v) => some v
  | _ => none

def finish (s : Session) : Ending :=
  match dropAll s.quiet with
  | .error e after => ⟨after.announcements, none, Halt.cause? e⟩
  | .ok () after =>
    let ending := fun cause => Ending.mk after.announcements (some (changes s.snapshot after.snapshot)) cause
    match destroySlots after with
    | .ok () _ => ending none
    | .error e _ => ending (Halt.cause? e)

/-- Run steps in order, and end the session unless a violation ended it. -/
def runSteps : List Step → Session → Transcript
  | [], s => ⟨[], some s.finish⟩
  | step :: rest, s =>
    match s.runStep step with
    | (.violated v log, _) => ⟨[.violated v log], none⟩
    | (entry, after) =>
      let t := runSteps rest after
      ⟨entry :: t.entries, t.ending⟩

/-- Run a session over fresh slots. -/
def run (slots : List SlotSpec) (steps : List Step) : Transcript := runSteps steps (start slots)

end Session

end SlotHandles
