import LuaHost.Guest.Store
/-!
What a library function does, as a tree of requests to the machine that runs it. A request comes with
what to do with its answer, so that a function that calls the guest, or waits for the host, can be
left and taken up again.
-/

namespace LuaHost.Guest

/-- What is known about an active function. -/
structure ActiveFunction where
  function : Value
  /-- The shown name of the chunk, and that name as it was given; for a library function both are
  the same mark. -/
  chunk : Bytes
  source : Bytes
  isNative : Bool
  lineDefined : Int
  lastLine : Int
  line : Int
  /-- What the function is called in the code that called it: a kind of name, and the name. -/
  name : Option (String × Bytes)
  isTailCall : Bool
  upvalues : Nat
  parameters : Nat
  isVararg : Bool
  deriving Inhabited

inductive ThreadStatus where
  | suspended
  | running
  | normal
  | dead
  deriving DecidableEq, Repr, Inhabited

inductive Program where
  | done (values : List Value)
  /-- Raises an error object as it is. -/
  | raise (v : Value)
  /-- Raises a message behind the position of the calling function. -/
  | fail (message : Bytes)
  /-- Raises a complaint about an argument, counted from one. -/
  | badArgument (n : Nat) (message : Bytes)
  /-- A failure that no guest code can explain. -/
  | breakDown
  | query (k : Store → Program)
  | update (f : Store → Store) (k : Unit → Program)
  /-- Calls a value; the threads in between cannot be suspended. -/
  | call (f : Value) (arguments : List Value) (k : List Value → Program)
  /-- Calls a value and goes on whether it fails or not; a handler sees the error object first. -/
  | protect (f : Value) (arguments : List Value) (handler : Option Value)
      (k : Bool → List Value → Program)
  /-- Is there room for so many values more? -/
  | reserve (count : Nat) (k : Bool → Program)
  /-- The position of the function at a level, as it stands before messages. -/
  | position (level : Nat) (k : Bytes → Program)
  | traceback (thread : Option Nat) (message : Option Bytes) (level : Nat) (k : Bytes → Program)
  | activeFunction (thread : Option Nat) (level : Nat) (k : Option ActiveFunction → Program)
  | compile (source chunk : Bytes) (k : Except Bytes Prototype → Program)
  /-- The present content of a slot of the host. -/
  | slot (index : Nat) (k : Value → Program)
  | spawn (f : Value) (k : Nat → Program)
  | resume (thread : Nat) (arguments : List Value) (k : Bool → List Value → Program)
  | yield (values : List Value) (k : List Value → Program)
  /-- The running thread, whether it is the main one, and whether it can be suspended. -/
  | thisThread (k : Nat → Bool → Bool → Program)
  | status (thread : Nat) (k : ThreadStatus → Program)
  /-- Hands a line to the host. -/
  | log (line : String) (k : Unit → Program)
  /-- The content of a file, or why it cannot be had. -/
  | readFile (path : Bytes) (k : Except String Bytes → Program)

instance : Inhabited Program := ⟨.done []⟩

/-- A part of a library function that comes to a value. -/
def Act (α : Type) : Type := (α → Program) → Program

namespace Act

instance : Monad Act where
  pure a := fun k => k a
  bind m f := fun k => m fun a => f a k

variable {α : Type}

/-- Runs a part whose values are the function's results. -/
def toProgram (a : Act (List Value)) : Program := a .done

def raise (v : Value) : Act α := fun _ => .raise v

def fail (message : String) : Act α := fun _ => .fail (Text.encode message)

def failBytes (message : Bytes) : Act α := fun _ => .fail message

def badArgument (n : Nat) (message : String) : Act α := fun _ => .badArgument n (Text.encode message)

def query (f : Store → α) : Act α := fun k => .query fun s => k (f s)

def update (f : Store → Store) : Act Unit := fun k => .update f k

def call (f : Value) (arguments : List Value) : Act (List Value) := fun k => .call f arguments k

def newTable (t : Table) : Act Value := fun k =>
  .query fun s =>
    let id := s.tables.size
    .update (fun s => (s.newTable t).1) fun _ => k (.table id)

def newClosure (c : Closure) : Act Value := fun k =>
  .query fun s =>
    let id := s.closures.size
    .update (fun s => (s.newClosure c).1) fun _ => k (.closure id)

def reserve (count : Nat) : Act Bool := fun k => .reserve count k

def position (level : Nat) : Act Bytes := fun k => .position level k

/-- A complaint about the type of a value that needs no position: no function of the guest's source
text is to blame. -/
def typeFailure (v : Value) (operation : String) : Act α := fun _ =>
  .query fun s =>
    .raise (.string (Text.encode ("attempt to " ++ operation ++ " a ") ++ s.typeName v
      ++ Text.encode " value"))

/-- Reads a field, metamethods included. -/
def index (object key : Value) : Act Value := fun k =>
  .query fun s =>
    match s.read object key with
    | .value v => k v
    | .metamethod f o => .call f [o, key] fun vs => k (vs.headD .nil)
    | .notIndexable v _ => typeFailure (α := Value) v "index" k
    | .slot _ => k .nil
    | .loop => .raise (ofText Store.indexLoopMessage)

/-- Writes a field, metamethods included. -/
def setIndex (object key value : Value) : Act Unit := fun k =>
  .query fun s =>
    match s.write object key with
    | .slot t =>
      match Store.keyProblem? key with
      | some problem => .raise (ofText problem)
      | none => .update (fun s => s.modifyTable t fun t => t.set key value) k
    | .metamethod f o => .call f [o, key, value] fun _ => k ()
    | .notIndexable v _ => typeFailure (α := Unit) v "index" k
    | .value _ => k ()
    | .loop => .raise (ofText Store.newIndexLoopMessage)

def metafield (v event : Value) : Act Value := query fun s => s.metafield v event

/-- The length of a value, metamethods included. -/
def length (v : Value) : Act Value := do
  match v with
  | .string s => return .int (Int32.ofNat s.size)
  | _ =>
    let handler ← metafield v Event.len
    if !handler.isNil then return (← call handler [v]).headD .nil
    else
      match v with
      | .table id => query fun s => .int (Int32.ofNat (s.table id).length)
      | _ => typeFailure v "get length of"

/-- Is the first value less than the second, metamethods included? -/
def lessThan (a b : Value) : Act Bool := do
  match lessThan? a b with
  | some r => return r
  | none =>
    let first ← metafield a Event.lt
    let handler ← if first.isNil then metafield b Event.lt else pure first
    if !handler.isNil then return ((← call handler [a, b]).headD .nil).truthy
    else
      let s ← query fun s => (s.typeName a, s.typeName b)
      let compared :=
        if s.1 == s.2 then Text.encode "two " ++ s.1 ++ Text.encode " values"
        else s.1 ++ Text.encode " with " ++ s.2
      raise (.string (Text.encode "attempt to compare " ++ compared))

/-- Repeats a part until it comes to a result, at most `fuel` times. -/
def loop {β : Type} [Inhabited β] (step : α → Act (α ⊕ β)) : Nat → α → Act β
  | 0, _ => pure default
  | fuel + 1, a => do
    match ← step a with
    | .inl a => loop step fuel a
    | .inr b => return b

end Act

end LuaHost.Guest
