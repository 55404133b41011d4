import LuaHost.Session.Ledger
import LuaHost.Guest.Value
import LuaHost.StandardLibrary
import LuaHost.Record
/-!
Host code, as far as sessions can see it: a tree of operations, with what the code does with their
outcomes. Functions exposed to the guest and encoders are host code too, so that an operation may carry
some. Host code keeps a memory of its own, of type `σ`.
-/

namespace LuaHost

/-- A host value that can be encoded as it is. -/
inductive Primitive where
  | nil
  | bool (b : Bool)
  /-- A number that has to be a guest integer. -/
  | int (x : Float)
  | float (x : Float)
  | string (s : String)
  deriving Repr, Inhabited

/-- What a value is expected to look like. -/
inductive Decoder where
  | nil | bool | int | float | number | string | value | reference
  | optional (d : Decoder)
  | list (item : Decoder)
  | table (key entry : Decoder)
  deriving Repr, Inhabited, DecidableEq

inductive Decoded where
  | null
  | absent
  | bool (b : Bool)
  | int (n : Int)
  | number (x : Float)
  | string (s : String)
  | value (d : Datum)
  | reference (r : Reference)
  | list (items : List Decoded)
  | pairs (entries : List (Decoded × Decoded))
  deriving Inhabited

/-- Source text that can be run in any session; the compiled form is kept by session. -/
structure Chunk where
  source : ByteArray
  name : String
  deriving Inhabited

/-- What an operation gives besides the successor state. -/
inductive Result where
  | nothing
  | values (vs : List Datum)
  | item (i : Item)
  | reference (r : Reference)
  | chunk (id : Nat) (chunk : Chunk)
  | decoded (d : Decoded)
  deriving Inhabited

/-- How an operation ended: with a result, with a failure that it reports, or by throwing. -/
inductive Outcome where
  | ok (state : Option State) (result : Result)
  | err (f : Failure)
  | threw (t : Thrown)
  deriving Inhabited

/-- A call back to the host: it changes the host's memory, and may throw. -/
abbrev Hook (σ ε : Type) := ε → Ledgers → σ → σ × Option Thrown

structure HostCall where
  name : String
  arguments : List Datum
  deriving Inhabited

structure HostReturn where
  name : String
  values : List Item
  deriving Inhabited

/-- Whom a session tells about lines that the guest prints, calls of host functions, their returns, and
failures. -/
structure Callbacks (σ : Type) where
  onLog : Hook σ String
  onHostCall : Option (Hook σ HostCall) := none
  onHostReturn : Option (Hook σ HostReturn) := none
  onError : Option (Hook σ Failure) := none

structure Options (σ : Type) where
  libraries : LibraryChoice := .all
  packagePath : Option String := none
  callbacks : Callbacks σ

mutual

/-- Host code that ends with a state and values. -/
inductive Client (σ : Type) where
  | done (state : State) (items : List Item)
  | throw (t : Thrown)
  /-- Works on the host's memory, with a look at the accounts of the sessions. -/
  | access (update : Ledgers → σ → σ) (next : Ledgers → σ → Client σ)
  /-- Asks for an identity that no error object has had so far. -/
  | identity (k : Nat → Client σ)
  | perform (op : Operation σ) (k : Outcome → Client σ)

inductive Operation (σ : Type) where
  | init (options : Options σ)
  | close (state : State)
  | encode (state : State) (p : Primitive)
  | encodeTable (state : State) (entries : Encoders σ)
  | expose (state : State) (name : Option String) (body : State → List Datum → Client σ)
  | get (state : State) (path : List String)
  | refGet (state : State) (path : List String)
  | set (state : State) (path : List String) (item : Item)
  | load (state : State) (source : String) (name : Option String)
  | loadFile (state : State) (path : String)
  | run (state : State) (source : String) (name : Option String)
  | runFile (state : State) (path : String)
  | runChunk (state : State) (chunk : Nat)
  | releaseChunk (state : State) (chunk : Nat)
  | call (state : State) (ref : Reference) (arguments : List Item)
  | callByName (state : State) (path : List String) (arguments : List Item)
  | decode (value : Datum) (decoder : Decoder)
  | release (item : Item)

/-- The encoders for the keys and values of a table, in order. -/
inductive Encoders (σ : Type) where
  | nil
  | cons (key value : State → Client σ) (rest : Encoders σ)

end

namespace Client

variable {σ : Type}

instance [Inhabited σ] : Inhabited (Client σ) := ⟨.throw default⟩

/-- Ends with the outcome of an operation that gives a state and an item. -/
def ofOutcome : Outcome → Client σ
  | .ok (some state) (.item i) => .done state [i]
  | .ok (some state) _ => .done state []
  | .ok none _ => .throw (.value .undefined)
  | .err f => .throw f.thrown
  | .threw t => .throw t

/-- An encoder made of a single operation. -/
def ofOperation (op : Operation σ) : Client σ := .perform op ofOutcome

def encode (p : Primitive) (state : State) : Client σ := ofOperation (.encode state p)

end Client

namespace Encoders

variable {σ : Type}

def ofList : List ((State → Client σ) × (State → Client σ)) → Encoders σ
  | [] => .nil
  | (key, value) :: rest => .cons key value (ofList rest)

/-- The items of a sequence, with keys from one on. -/
def ofItems (items : List (State → Client σ)) : Encoders σ :=
  ofList ((items.zipIdx 1).map fun (item, i) => (Client.encode (.int (Guest.floatOfNat i)), item))

/-- The entries of a record in their order, with their names as keys. -/
def ofRecord (entries : List (String × (State → Client σ))) : Encoders σ :=
  ofList ((Record.ofEntries entries).map fun (name, value) => (Client.encode (.string name), value))

end Encoders

end LuaHost
