import SlotHandles.Session.State

/-!
# Chains and vaults in a session

The steps on handles of values that store a handle themselves, and on the cells of a vault.
-/

namespace SlotHandles

/-- The slot a handle's element is in. -/
def Handle.elementSlot? (h : Handle) : Option SlotId :=
  match h.ref.address with
  | some ⟨.slot s, _⟩ => some s
  | _ => none

/-- The numbers of the values along a chain, at most `limit` of them. -/
def World.chain (w : World) : (limit : Nat) → Handle → List Int32
  | 0, _ => []
  | limit + 1, h =>
    match h.elementSlot?.bind w.storageOf with
    | some (.node id next) | some (.snode id next) => id :: w.chain limit next
    | _ => []

namespace Run

/-- The handle of a chain with a name: an exclusive one of a node, or a shared one of a shared node. -/
def chainHandle (name : String) : Run Handle := do
  let h ← handle name
  require (match h.family with
    | .unique => h.elem = .ofKind .node
    | .shared => h.elem = .ofKind .snode) .rejected
  return h

/-- The place of the handle inside the value that a handle refers to. -/
def nextOf (h : Handle) : Run Holder := do
  act (checkAccess h)
  match h.elementSlot? with
  | some s => return .inside s
  | none => refuse .badInput

def link (name child : String) (mode : Mode) : Run Reply := do
  let h ← chainHandle name
  let c ← handle child
  require (c.family = h.family && c.elem = h.elem) .rejected
  let place ← nextOf h
  match mode with
  | .move => act (assignByMove place (.named child))
  | .copy => do
    require (h.family = .shared) .rejected
    act (assignByCopy place (.named child))
  return .info (← infoAt place)

/-- Move or copy the handle stored in a value; an exclusive one is always moved.  The answer shows the new handle
when the one it replaces has been released. -/
def next (name into : String) (mode : Mode) : Run Reply := do
  let h ← chainHandle name
  let place ← nextOf h
  let new ← match h.family, mode with
    | .shared, .copy => act (copyHandle h.elem place)
    | _, _ => act (moveHandle h.elem place)
  store into new
  return .info (← infoAt (.named into))

/-- Replace a handle by the one stored in its value.  An exclusive one is moved aside first. -/
def pop (name : String) : Run Reply := do
  let h ← chainHandle name
  let place ← nextOf h
  match h.family with
  | .unique => do
    let rest ← act (moveHandle h.elem place)
    act (resetHandle (.named name))
    act (writeHandle (.named name) rest)
  | .shared => act (assignByMove (.named name) place)
  return .info (← infoAt (.named name))

def ids (name : String) : Run Reply := do
  let h ← chainHandle name
  return .numbers ((← world).chain 500 h)

def serveCell (f : CellFormat) (c : Cell f.width) (r : VaultRequest) : Option (Reply × Cell f.width) := do
  match r with
  | .read => return (.datum (f.decode c.read), c)
  | .write a =>
    let c' := c.write (← f.encode? (.int a))
    return (.datum (f.decode c'.read), c')
  | .exchange a =>
    let (previous, c') := c.exchange (← f.encode? (.int a))
    return (.datum (f.decode previous), c')
  | .compareAndSwap a b =>
    let (swap, c') := c.compareAndSwap (← f.encode? (.int a)) (← f.encode? (.int b))
    return (.swapped swap.done (f.decode swap.expected), c')

/-- Use a cell of the vault a handle refers to, through exclusive and shared handles alike. -/
def vaultCell (name : String) (field : VaultField) (r : VaultRequest) : Run Reply := do
  let h ← handle name
  require (h.elem = .ofKind .vault) .rejected
  let v ← act (dereference h)
  match v, h.ref.address with
  | .vault hits closed, some a =>
    match field with
    | .hits =>
      match serveCell (.signed 32) hits r with
      | some (reply, hits') =>
        act (writeObject a.region (.vault hits' closed))
        return reply
      | none => refuse .badInput
    | .closed =>
      match serveCell .flag closed r with
      | some (reply, closed') =>
        act (writeObject a.region (.vault hits closed'))
        return reply
      | none => refuse .badInput
  | _, _ => refuse .badInput

end Run

end SlotHandles
