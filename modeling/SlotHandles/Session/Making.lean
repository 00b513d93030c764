import SlotHandles.Session.State

/-!
# Making handles in a session

The steps that build values and store the handles that own them: under a name, as a result, in a static slot; and
what can be done with a result.
-/

namespace SlotHandles

namespace Run

/-- The kinds of values that are built from a temporary. -/
def hasTemporaries : StoredType → Bool
  | .single k => k = .int || k = .string || k = .tracked || k = .derived || k = .diff || k = .picky || k = .node ||
      k = .gadget
  | .collection item n => item = .int && n = 4

/-- Build a temporary from its arguments, unannounced.  One that refuses to be built throws before a slot is
touched. -/
def buildTemporary (seed : Seed) : Run Unit := do
  require (hasTemporaries seed.type) .unsupported
  match seed.value.refusal? with
  | some refusal => act (raise refusal)
  | none => pure ()

def originOf (seed : Seed) (via : Via) : Run Origin := do
  match via with
  | .arguments => return .arguments seed
  | .moving =>
    buildTemporary seed
    return .moved seed
  | .copying =>
    require (!hasTemporaries seed.type || seed.type.copyable) .rejected
    buildTemporary seed
    return .copied seed

/-- A temporary as shown after its use. -/
def argumentShown (via : Via) (v : Value) : Run (Option Datum) := do
  match via with
  | .arguments => return none
  | _ => return some (← displayed v.type.ty v)

/-- Make a handle and store it under a name, or answer why no value was built. -/
def makeHandle (name : String) (s : SlotId) (family : Family) (elem : Ty) (seed : Seed) (via : Via)
    (throwing : Bool) : Run Reply := do
  requireSlot s
  require (elem.owns seed.type.ty) .rejected
  let origin ← originOf seed via
  let made ← if throwing then Except.ok <$> act (makeOrThrow family elem s origin)
    else act (make family elem s origin)
  match made with
  | .error e => return .error e (← argumentShown via seed.value)
  | .ok m =>
    let reply := Reply.made (← infoOf m.handle) (← argumentShown via m.rest)
    store name m.handle
    return reply

/-- Make a handle in the static slot of a site. -/
def makeAtSite (name : String) (site : Nat) (argument : Int) : Run Reply := do
  match Session.staticSites[site]? with
  | none => refuse .badInput
  | some st =>
    match Seed.ofArguments? st.type [.int (if st.takesArgument then argument else 0)] with
    | none => refuse .badInput
    | some seed => makeHandle name (.static site) st.family st.elem seed .arguments false

/-- Make a handle and store the outcome as a result. -/
def makeResult (r : String) (s : SlotId) (family : Family) (elem : Ty) (seed : Seed) : Run Reply := do
  requireSlot s
  require (elem.owns seed.type.ty) .rejected
  match ← act (make family elem s (.arguments seed)) with
  | .error e =>
    modify fun st => { st with results := st.results.put r e }
    replace (.result r) (.empty family elem)
    return .hasValue false
  | .ok m =>
    modify fun st => { st with results := st.results.put r .none }
    replace (.result r) m.handle
    return .hasValue true

/-- Adopt the value in a slot, which has to be of the given type up to qualifiers.  The answer shows the new handle
when the one it replaces has been released. -/
def adoptHandle (name : String) (s : SlotId) (family : Family) (type : Ty) : Run Reply := do
  requireSlot s
  let _ ← storedTypeOf type
  let place ← if (← act (controlNow s)).state = .occupied then some <$> act (locateValue s type)
    else pure none
  let h ← act (adopting family type s (.object place))
  store name h
  return .info (← infoAt (.named name))

def resultCode (r : String) : Run ErrorCode := do
  match (← get).results.find? r with
  | some e => return e
  | none => refuse .badInput

/-- Look at the handle of a result, or take it out; a result without a handle reports a violation.  A handle that is
taken out is shown when the one it replaces has been released. -/
def accessResult (r : String) (access : ResultAccess) : Run Reply := do
  let e ← resultCode r
  if e ≠ .none then act (violate (.valueOfError e))
  match access with
  | .value => return .info (← infoAt (.result r))
  | .arrow => return .place (← infoAt (.result r)).place
  | .take name =>
    match (← world).handle? (.result r) with
    | none => refuse .badInput
    | some h =>
      let h ← act (moveHandle h.elem (.result r))
      store name h
      return .info (← infoAt (.named name))

def dropResult (r : String) : Run Reply := do
  let _ ← resultCode r
  modify fun st => { st with results := st.results.remove r }
  remove (.result r)
  return .null

end Run

end SlotHandles
