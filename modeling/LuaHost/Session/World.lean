import LuaHost.Session.Client
import LuaHost.Directory
import LuaHost.Guest.Engine
/-!
Everything that operations work on: the accounts and the machines of all sessions, the chunks, the
failures that were raised in a guest, and the host's memory. The operations here take a single step
each; none of them runs guest code or host code.
-/

namespace LuaHost

/-- A guest machine with the host code that it can reach. -/
structure Vm (σ : Type) where
  machine : Guest.Machine
  /-- The functions exposed so far, with their names. -/
  exposed : Array (String × (State → List Datum → Client σ)) := #[]
  callbacks : Callbacks σ

structure World (σ : Type) where
  ledgers : Ledgers := #[]
  vms : Array (Vm σ) := #[]
  chunks : Array Chunk := #[]
  /-- The failures that were raised in a guest, by identity. -/
  raised : List (Nat × Fault) := []
  nextIdentity : Nat := 1
  directory : Directory
  memory : σ

namespace World

variable {σ : Type} (w : World σ)

/-! ### Accounts -/

def ledger (session : Nat) : Ledger := w.ledgers.getD session { closed := true }

def modifyLedger (session : Nat) (f : Ledger → Ledger) : World σ :=
  { w with ledgers := w.ledgers.modify session f }

/-- Why a state is turned away. -/
def stateViolation? (s : State) : Option Fault := (w.ledger s.session).stateViolation? s.generation

/-- The head of a session. -/
def head (session : Nat) : State := ⟨session, (w.ledger session).head⟩

def restore (s : State) : World σ := w.modifyLedger s.session (·.restore s.generation)

/-- Issues the successor of a session's head. -/
def advance (session : Nat) : World σ × State :=
  let w := w.modifyLedger session (·.advance)
  (w, w.head session)

/-- Ends an operation well: it gives the successor of the head. -/
def succeed (session : Nat) (result : Result) : World σ × Outcome :=
  let (w, s) := w.advance session
  (w, .ok (some s) result)

/-! ### Machines -/

def machine (session : Nat) : Guest.Machine :=
  match w.vms[session]? with
  | some v => v.machine
  | none => default

def modifyMachine (session : Nat) (f : Guest.Machine → Guest.Machine) : World σ :=
  { w with vms := w.vms.modify session fun v => { v with machine := f v.machine } }

/-- Puts a guest object into a slot of its own. -/
def occupy (session : Nat) (v : Guest.Value) : World σ × Nat :=
  (w.modifyMachine session fun m => { m with slots := m.slots.pin v }, (w.machine session).slots.next)

/-- Empties a slot; a session that is closed has no slots any more. -/
def vacate (session slot : Nat) : World σ :=
  if (w.ledger session).closed then w
  else w.modifyMachine session fun m => { m with slots := m.slots.unpin slot }

/-- Keeps a guest object behind a new handle. -/
def pin (session : Nat) (v : Guest.Value) : World σ × Handle :=
  let index := (w.ledger session).nextHandle
  let (w, slot) := w.occupy session v
  (w.modifyLedger session (·.addHandle slot), ⟨session, index⟩)

def pinAs (kind : CompositeKind) (session : Nat) (v : Guest.Value) : World σ × Datum :=
  let (w, handle) := w.pin session v
  (w, .composite kind handle)

/-- Reads a guest value: primitives are copied, an object gets a new handle. -/
def receive (session : Nat) (v : Guest.Value) : World σ × Datum :=
  match v with
  | .nil => (w, .nil)
  | .bool b => (w, .bool b)
  | .int n => (w, .int n.toInt)
  | .float x => (w, .float x)
  | .string s => (w, .string (Text.decode s))
  | .table _ => w.pinAs .table session v
  | .closure _ => w.pinAs .function session v
  | .builtin _ => w.pinAs .function session v
  | .host _ => w.pinAs .function session v
  | .userdata _ => w.pinAs .userdata session v
  | .light _ => w.pinAs .userdata session v
  | .thread _ => w.pinAs .thread session v

def receiveAll (session : Nat) (values : List Guest.Value) : World σ × List Datum :=
  let (w, received) := values.foldl (fun (w, received) v =>
    let (w, d) := w.receive session v
    (w, d :: received)) (w, [])
  (w, received.reverse)

/-- The slot that a handle was given, whether it has been given back or not. -/
def slotOf (h : Handle) : Nat :=
  match (w.ledger h.session).handles[h.index]? with
  | some record => record.slot
  | none => 0

/-- The guest value for a host value: for an object, whatever its slot holds now. There is none for a
number that is no guest integer. -/
def give? (session : Nat) (d : Datum) : Option Guest.Value :=
  match d with
  | .nil => some .nil
  | .bool b => some (.bool b)
  | .int n => if Guest.fitsInt32 n then some (.int (Int32.ofInt n)) else none
  | .float x => some (.float x)
  | .string s => some (Guest.ofText s)
  | .composite _ h => some ((w.machine session).slots.content (w.slotOf h))

/-- The guest values for host values, or those before the first that has none. -/
def giveAll (session : Nat) (items : List Item) : Except (List Guest.Value) (List Guest.Value) :=
  let values := items.map fun item => w.give? session item.datum
  let given := (values.takeWhile Option.isSome).filterMap id
  if given.length == values.length then .ok given else .error given

/-- Gives the slot of a handle back; nothing happens the second time. -/
def releaseHandle (h : Handle) : World σ :=
  match (w.ledger h.session).slot? h.index with
  | none => w
  | some slot => (w.vacate h.session slot).modifyLedger h.session (·.releaseHandle h.index)

def release (item : Item) : World σ :=
  match item.datum.handle? with
  | some h => w.releaseHandle h
  | none => w

/-! ### Failures -/

/-- An identity that no error object has had so far. -/
def freshIdentity : World σ × Nat := ({ w with nextIdentity := w.nextIdentity + 1 }, w.nextIdentity)

def newFailure (fault : Fault) : World σ × Failure :=
  let (w, identity) := w.freshIdentity
  (w, ⟨identity, fault⟩)

/-- Throws a failure at the caller. -/
def throwFault (fault : Fault) : World σ × Thrown :=
  let (w, f) := w.newFailure fault
  (w, f.thrown)

/-- Calls a hook of the host, if there is one. -/
def notify {ε : Type} (hook : Option (Hook σ ε)) (event : ε) : World σ × Option Thrown :=
  match hook with
  | none => (w, none)
  | some hook =>
    let (memory, thrown) := hook event w.ledgers w.memory
    ({ w with memory }, thrown)

def callback {α : Type} (session : Nat) (field : Callbacks σ → Option α) : Option α :=
  (w.vms[session]?).bind fun v => field v.callbacks

/-- Tells the host about a failure. -/
def report (session : Nat) (f : Failure) : World σ × Option Thrown :=
  w.notify (w.callback session (·.onError)) f

/-- Ends an operation with a failure that the host is told about. -/
def fail (session : Nat) (fault : Fault) : World σ × Outcome :=
  let (w, f) := w.newFailure fault
  match w.report session f with
  | (w, none) => (w, .err f)
  | (w, some t) => (w, .threw t)

/-- A thrown thing as a failure: a failure stays itself, anything else becomes the cause of one. There is
none for a thing without a text. -/
def asFailure (code : RuntimeCode) (t : Thrown) : World σ × Option Failure :=
  match t with
  | .failure identity fault => (w, some ⟨identity, fault⟩)
  | t =>
    match t.message? with
    | none => (w, none)
    | some text =>
      let (w, f) := w.newFailure (.runtime code [("message", .string text)] none none none (some t))
      (w, some f)

/-- Ends a call of the guest for something that was thrown on the host's side. -/
def failUnexpected (session : Nat) (t : Thrown) : World σ × Outcome :=
  match w.asFailure .raised t with
  | (w, none) => (w, .threw Thrown.noText)
  | (w, some f) =>
    match w.report session f with
    | (w, none) => (w, .err f)
    | (w, some t) => (w, .threw t)

/-- Ends a call of the guest with its failure. What the host throws when it is told counts as the failure
instead, once. -/
def failCall (session : Nat) (f : Failure) : World σ × Outcome :=
  match w.report session f with
  | (w, none) => (w, .err f)
  | (w, some t) => w.failUnexpected session t

/-- The failure that an error object of the guest stands for. -/
def failureOf? (session : Nat) (error : Guest.Value) : Option Failure :=
  let store := (w.machine session).store
  match error with
  | .table id =>
    let t := store.table id
    if t.metatable == some store.hostError then
      match t.getText "error" with
      | .light payload => (w.raised.find? (·.1 == payload)).map fun (identity, fault) => ⟨identity, fault⟩
      | _ => none
    else none
  | _ => none

/-- The name of the status with which a call ended that did not just raise an error. -/
def statusName : Guest.Status → String
  | .raised => "runtime error"
  | .handlerFailed => "error in error handler"
  | .brokenDown => "-1"

/-- The message about an error object that is not text. -/
def errorObjectMessage (v : Guest.Value) (d : Datum) : String :=
  match d with
  | .int n => toString n
  | .float x => Decimal.hostText x
  | _ => "(error object is a " ++ v.typeName ++ " value)"

/-- The failure of a call of the guest, by its error object. -/
def readFailure (session : Nat) (status : Guest.Status) (error : Guest.Value)
    (traceback : Option Guest.Bytes) : World σ × Failure :=
  let traceback := traceback.map Text.decode
  match status, error with
  | .raised, .string s =>
    let message := Text.decode s
    w.newFailure (.runtime .raised [("message", .string message)] (Text.Location.ofMessage? message)
      traceback none none)
  | .raised, error =>
    match w.failureOf? session error with
    | some f => (w, f)
    | none =>
      let (w, d) := w.receive session error
      w.newFailure (.runtime .raised [("message", .string (errorObjectMessage error d))] none
        traceback (some d) none)
  | status, error =>
    let message := match error with
      | .string s => Text.decode s
      | _ => ""
    w.newFailure (.runtime .interpreter
      [("status", .string (statusName status)), ("message", .string message)] none none none none)

/-- The error object that stands for a failure in the guest: its text is the failure's message. -/
def errorObject (store : Guest.Store) (f : Failure) : Guest.Table :=
  { (({} : Guest.Table).setText "message" (Guest.ofText f.message)).setText "error"
      (.light f.identity) with metatable := some store.hostError }

/-- Raises in the guest what was thrown by host code that the guest called. -/
def raiseInGuest (session : Nat) (t : Thrown) : World σ :=
  match w.asFailure .hostFunction t with
  | (w, none) => w.modifyMachine session (·.breakDown [])
  | (w, some f) =>
    let w := { w with raised := (f.identity, f.fault) :: w.raised }
    w.modifyMachine session fun m =>
      let (store, id) := m.store.newTable (errorObject m.store f)
      { m with store }.raiseFromHost (.table id)

end World

end LuaHost
