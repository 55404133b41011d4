import LuaHost.Session.Decoding
import LuaHost.Session.Path
/-!
Host code under way. It is run in small steps: a configuration has something to do next and a stack
of things that wait for it. Host functions that the guest calls, and operations that these perform in turn,
put more on the stack, so that no nesting is special.
-/

namespace LuaHost

/-- What a call of the guest is for. -/
inductive Purpose where
  /-- The value at the end of a path, as a reference or as a value. -/
  | lookup (keys : List String) (asReference : Bool)
  | assign (keys : List String)
  /-- The values that a function returns. -/
  | values
  deriving Repr, Inhabited

/-- A table that is being built: the state it is built from, the entries so far, and those to come. -/
structure TableInProgress (σ : Type) where
  origin : State
  done : List (Item × Item)
  rest : Encoders σ

/-- What waits for the part above it to end. -/
inductive Pending (σ : Type) where
  /-- Host code that waits for an operation. -/
  | perform (k : Outcome → Client σ)
  /-- The guest, for a host function that it called. -/
  | body (session : Nat) (name : String)
  /-- An operation, for the guest; the state is made the head again afterwards. -/
  | guest (entry : State) (purpose : Purpose)
  /-- A table, for an encoder of a key. -/
  | key (table : TableInProgress σ) (value : State → Client σ)
  /-- A table, for an encoder of a value. -/
  | value (table : TableInProgress σ) (key : Item)
  /-- Source text that is to be run, for its compilation. -/
  | compiled (origin : State)
  /-- Source text that nobody else runs, for its end. -/
  | ran (origin state : State) (chunk : Nat)
  /-- A call by name, for its target. -/
  | resolved (state : State) (keys : List String) (arguments : List Item)
  /-- A call by name, for its end. -/
  | called (target : Reference)

inductive Control (σ : Type) where
  | client (c : Client σ)
  | perform (op : Operation σ)
  | outcome (o : Outcome)
  /-- A guest machine runs. -/
  | guest (session : Nat)
  /-- Nothing goes on until the outcome of reading a file is known. -/
  | lacking (path : String) (next : Control σ)
  | finished (result : Except Thrown (State × List Item))

structure Config (σ : Type) where
  world : World σ
  control : Control σ
  stack : List (Pending σ) := []

namespace Config

variable {σ : Type} (c : Config σ)

def start (world : World σ) (client : Client σ) : Config σ := { world, control := .client client }

/-- Goes on with an outcome. -/
def ending (r : World σ × Outcome) : Config σ := { c with world := r.1, control := .outcome r.2 }

/-- Ends the operation by throwing a fault. -/
def throwing (fault : Fault) : Config σ :=
  let (world, t) := c.world.throwFault fault
  { c with world, control := .outcome (.threw t) }

/-- Goes on if a state is its session's head. -/
@[inline] def requiring (s : State) (k : Config σ → Config σ) : Config σ :=
  match c.world.stateViolation? s with
  | some fault => c.throwing fault
  | none => k c

/-- Goes on if a session accepts what it is handed. -/
@[inline] def claiming (session : Nat) (items : List Item) (k : Config σ → Config σ) : Config σ :=
  match (c.world.ledger session).claimViolation? session items with
  | some fault => c.throwing fault
  | none => k c

/-! ### Calls of the guest -/

/-- Lets the guest run for an operation. -/
def entering (entry : State) (purpose : Purpose) (world : World σ) : Config σ :=
  { world
    control := .guest entry.session
    stack := .guest entry purpose :: c.stack }

/-- Runs a function that the host wrote for the guest. -/
def enteringProgram (entry : State) (purpose : Purpose) (p : Guest.Program) : Config σ :=
  c.entering entry purpose
    (c.world.modifyMachine entry.session fun m => m.enterGate.runFromHost p)

/-- What is thrown when a number that is no guest integer is handed over. -/
def invalidArgument : Thrown := .exception (.ofMessage .typeError "invalid argument")

def noRoom (action : String) (count : Nat) : Thrown :=
  .exception (.ofMessage .rangeError
    ("Cannot " ++ action ++ " " ++ toString count ++ " values: stack overflow"))

/-- Gives a call up whose function or arguments cannot be handed over. -/
def abandoning (entry : State) (t : Thrown) : Config σ :=
  let world := c.world.modifyMachine entry.session (·.abandon)
  let r := world.failUnexpected entry.session t
  c.ending (r.1.restore entry, r.2)

/-- Opens the gate of the guest for a call. -/
def openingGate (entry : State) : Config σ :=
  { c with world := c.world.modifyMachine entry.session (·.enterGate) }

/-- Calls a guest value once the gate is open. -/
def applying (entry : State) (function : Guest.Value) (arguments : List Item) : Config σ :=
  let session := entry.session
  if (c.world.machine session).hasRoom arguments.length then
    match c.world.giveAll session arguments with
    | .error _ => c.abandoning entry invalidArgument
    | .ok values =>
      c.entering entry .values
        (c.world.modifyMachine session fun m => m.callFromHost function values)
  else c.abandoning entry (noRoom "push" arguments.length)

/-- Calls a value. -/
def calling (entry : State) (f : Item) (arguments : List Item) : Config σ :=
  let c := c.openingGate entry
  match c.world.give? entry.session f.datum with
  | none => c.abandoning entry invalidArgument
  | some function => c.applying entry function arguments

/-- Ends an operation whose call of the guest went well. -/
def returned (session : Nat) (purpose : Purpose) (values : List Guest.Value) (world : World σ) :
    World σ × Outcome :=
  match purpose with
  | .values =>
    let (world, data) := world.receiveAll session values
    world.succeed session (.values data)
  | .lookup keys asReference =>
    match values with
    | [] => world.fail session (.undefinedPath keys none)
    | v :: _ =>
      let (world, d) := world.receive session v
      if d.isNil then world.fail session (.undefinedPath keys none)
      else (world, .ok none (if asReference then .reference ⟨d⟩ else .item (.value d)))
  | .assign keys =>
    match Path.Collision.ofValues? values with
    | some collision =>
      world.fail session (.pathCollision keys (keys.take collision.length) collision.observed)
    | none => world.succeed session .nothing

/-- Ends the call of the guest on top of the stack. -/
def leaving (entry : State) (purpose : Purpose) (stack : List (Pending σ)) (signal : Guest.Signal) :
    Config σ :=
  let session := entry.session
  let c := { c with stack }
  match signal with
  | .failed status error traceback =>
    let (world, f) := c.world.readFailure session status error traceback
    let r := world.failCall session f
    c.ending (r.1.restore entry, r.2)
  | .finished values => c.ending (returned session purpose values (c.world.restore entry))
  | _ => c

/-! ### Host functions -/

/-- Raises in the guest what a host function threw. -/
def raising (session : Nat) (t : Thrown) (world : World σ) : Config σ :=
  { c with world := world.raiseInGuest session t, control := .guest session }

/-- The guest calls a function that the host exposed. -/
def invoking (session index : Nat) (values : List Guest.Value) : Config σ :=
  match (c.world.vms[session]?).bind (·.exposed[index]?) with
  | none => c.raising session (.value .undefined) c.world
  | some (name, body) =>
    let (world, arguments) := c.world.receiveAll session values
    match world.notify (world.callback session (·.onHostCall)) ⟨name, arguments⟩ with
    | (world, some t) => c.raising session t world
    | (world, none) =>
      let (world, state) := world.advance session
      { world, control := .client (body state arguments), stack := .body session name :: c.stack }

/-- Why what a host function returns is refused. -/
def returnViolation? (session : Nat) (state : State) (items : List Item) : Option Fault :=
  if state.session != session then
    some (.lineage .foreignValue [("kind", .string "state")])
  else
    match c.world.stateViolation? state with
    | some fault => some fault
    | none => (c.world.ledger session).claimViolation? session items

/-- A host function returns to the guest. -/
def answering (session : Nat) (name : String) (state : State) (items : List Item) : Config σ :=
  match c.returnViolation? session state items with
  | some fault =>
    let (world, t) := c.world.throwFault fault
    c.raising session t world
  | none =>
    if (c.world.machine session).hasRoomAbove items.length then
      match c.world.notify (c.world.callback session (·.onHostReturn)) ⟨name, items⟩ with
      | (world, some t) => c.raising session t world
      | (world, none) =>
        let world := match world.giveAll session items with
          | .ok values => world.modifyMachine session (·.answer values)
          | .error given => world.modifyMachine session (·.breakDown given)
        { c with world, control := .guest session }
    else c.raising session (noRoom "return" items.length) c.world

/-! ### Tables -/

/-- Is a value no key of a table? -/
def isInvalidKey : Item → Bool
  | .value .nil => true
  | .value (.float x) => x.isNaN
  | _ => false

/-- Gives a table up. -/
def abandoningTable (table : TableInProgress σ) (t : Thrown) : Config σ :=
  c.ending (c.world.restore table.origin, .threw t)

/-- A table of these entries, in their order. -/
def tableOf (entries : List (Guest.Value × Guest.Value)) : Guest.Table :=
  entries.foldl (fun t (key, value) => t.set key value) {}

/-- Makes the table when all its entries are there; it belongs to the session of the last state. -/
def building (table : TableInProgress σ) (last : State) : Config σ :=
  let session := last.session
  let entries := table.done.reverse
  let refuse (fault : Fault) : Config σ :=
    let (world, t) := c.world.throwFault fault
    { c with world }.abandoningTable table t
  match c.world.stateViolation? last with
  | some fault => refuse fault
  | none =>
    match (c.world.ledger session).claimViolation? session (entries.flatMap fun (k, v) => [k, v]) with
    | some fault => refuse fault
    | none =>
      match c.world.giveAll session (entries.map (·.1)),
          c.world.giveAll session (entries.map (·.2)) with
      | .ok keys, .ok values =>
        let id := (c.world.machine session).store.tables.size
        let world := c.world.modifyMachine session fun m =>
          { m with store := (m.store.newTable (tableOf (keys.zip values))).1 }
        let (world, d) := world.receive session (.table id)
        c.ending (world.succeed session (.item (.value d)))
      | _, _ => c.abandoningTable table invalidArgument

/-- Goes on with the next entry of a table. -/
def nextEntry (table : TableInProgress σ) (last : State) : Config σ :=
  match table.rest with
  | .nil => c.building table last
  | .cons key value rest =>
    { c with
      control := .client (key last)
      stack := .key { table with rest } value :: c.stack }

/-- An encoder has given the key of an entry. -/
def gotKey (table : TableInProgress σ) (value : State → Client σ) (state : State) (key : Item) :
    Config σ :=
  if isInvalidKey key then
    c.abandoningTable table
      (.exception (.ofMessage .typeError ("Invalid table key: " ++ key.datum.describe)))
  else
    { c with
      control := .client (value state)
      stack := .value table key :: c.stack }

/-! ### Host code -/

def nilItem : Item := .value .nil

/-- Host code has ended with a state and values. -/
def done (state : State) (items : List Item) : Config σ :=
  match c.stack with
  | .body session name :: stack => { c with stack }.answering session name state items
  | .key table value :: stack => { c with stack }.gotKey table value state (items.headD nilItem)
  | .value table key :: stack =>
    { c with stack }.nextEntry
      { table with done := (key, items.headD nilItem) :: table.done } state
  | _ => { c with control := .finished (.ok (state, items)) }

/-- Host code has thrown. -/
def thrown (t : Thrown) : Config σ :=
  match c.stack with
  | .body session _ :: stack => { c with stack }.raising session t c.world
  | .key table _ :: stack => { c with stack }.abandoningTable table t
  | .value table _ :: stack => { c with stack }.abandoningTable table t
  | _ => { c with control := .finished (.error t) }

def clientStep : Client σ → Config σ
  | .done state items => c.done state items
  | .throw t => c.thrown t
  | .access update next =>
    let memory := update c.world.ledgers c.world.memory
    { c with world.memory := memory, control := .client (next c.world.ledgers memory) }
  | .identity k =>
    let (world, identity) := c.world.freshIdentity
    { c with world, control := .client (k identity) }
  | .perform op k => { c with control := .perform op, stack := .perform k :: c.stack }

end Config

end LuaHost
