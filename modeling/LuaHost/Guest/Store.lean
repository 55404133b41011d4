import LuaHost.Guest.Table
import LuaHost.Guest.Code
import LuaHost.Guest.Arithmetic
/-!
The guest's heap: tables, closures with the variables they capture, and userdata. Objects are numbers
into the store and are never taken back. Reading through metatables is here too, as far as it goes
without running guest code.
-/

namespace LuaHost.Guest

/-- Where a captured variable is: still in a register of a thread, or on its own. -/
inductive Cell where
  | register (thread index : Nat)
  | closed (v : Value)
  deriving Inhabited

inductive Closure where
  /-- A function of a chunk with the cells it captures. -/
  | compiled (chunk : Nat) (prototype : Prototype) (cells : Array Nat)
  /-- What is left to be searched of a text, and the end of the last match. -/
  | matches (text pattern : Bytes) (position : Nat) (lastEnd : Option Nat)
  /-- Resumes a thread and raises its failures. -/
  | resumes (thread : Nat)
  deriving Inhabited

structure Userdata where
  metatable : Option Nat := none
  deriving Inhabited

/-- Metatables of the types whose values share one. -/
structure TypeMetatables where
  nil : Option Nat := none
  bool : Option Nat := none
  number : Option Nat := none
  string : Option Nat := none
  function : Option Nat := none
  light : Option Nat := none
  thread : Option Nat := none
  deriving Inhabited

structure Store where
  tables : Array Table := #[]
  closures : Array Closure := #[]
  cells : Array Cell := #[]
  /-- Chunks made into functions so far. -/
  chunks : Nat := 0
  /-- The closure last made of each function of each chunk; it is used again if it captures the same
  cells. -/
  recent : Std.HashMap (Nat × Nat) Nat := {}
  userdata : Array Userdata := #[]
  /-- Objects that were made and are not in the arrays above: threads, and what compilation makes. -/
  unlisted : Nat := 0
  shared : TypeMetatables := {}
  globals : Nat := 0
  /-- The table of loaded libraries, and that of functions that make libraries. -/
  loaded : Nat := 0
  preload : Nat := 0
  /-- The table of the package library. -/
  package : Nat := 0
  /-- The metatable of the objects that stand for failures of the host. -/
  hostError : Nat := 0
  deriving Inhabited

namespace Event

def index : Value := ofText "__index"
def newIndex : Value := ofText "__newindex"
def call : Value := ofText "__call"
def eq : Value := ofText "__eq"
def lt : Value := ofText "__lt"
def le : Value := ofText "__le"
def len : Value := ofText "__len"
def concat : Value := ofText "__concat"
def name : Value := ofText "__name"
def toString : Value := ofText "__tostring"
def pairs : Value := ofText "__pairs"
def metatable : Value := ofText "__metatable"

end Event

namespace Store

def table (s : Store) (id : Nat) : Table := s.tables.getD id {}

def modifyTable (s : Store) (id : Nat) (f : Table → Table) : Store :=
  { s with tables := s.tables.modify id f }

/-- The number of objects made so far. -/
def objects (s : Store) : Nat := s.tables.size + s.closures.size + s.userdata.size + s.unlisted

def newTable (s : Store) (t : Table) : Store × Nat :=
  let serial := s.objects + 1
  ({ s with tables := s.tables.push { t with serial } }, s.tables.size)

def newClosure (s : Store) (c : Closure) : Store × Nat :=
  ({ s with closures := s.closures.push c }, s.closures.size)

def newCell (s : Store) (c : Cell) : Store × Nat :=
  ({ s with cells := s.cells.push c }, s.cells.size)

def newUserdata (s : Store) (u : Userdata) : Store × Nat :=
  ({ s with userdata := s.userdata.push u }, s.userdata.size)

/-- Makes a chunk a function, whose first captured variable holds its globals. -/
def loadPrototype (s : Store) (p : Prototype) (globals : Value) : Store × Nat :=
  let first := s.cells.size
  let others := Array.replicate (p.upvalues.size - 1) (Cell.closed .nil)
  let s := { s with
    cells := s.cells.push (.closed globals) ++ others
    chunks := s.chunks + 1
    unlisted := s.unlisted + p.count + 1 }
  s.newClosure (.compiled (s.chunks - 1) p (Array.range' first p.upvalues.size))

def metatable? (s : Store) : Value → Option Nat
  | .table id => (s.table id).metatable
  | .userdata id => (s.userdata[id]?).bind (·.metatable)
  | .nil => s.shared.nil
  | .bool _ => s.shared.bool
  | .int _ => s.shared.number
  | .float _ => s.shared.number
  | .string _ => s.shared.string
  | .closure _ => s.shared.function
  | .builtin _ => s.shared.function
  | .host _ => s.shared.function
  | .light _ => s.shared.light
  | .thread _ => s.shared.thread

/-- Gives a value a metatable; values of a shared type all get it. -/
def setMetatable (s : Store) (v : Value) (m : Option Nat) : Store :=
  match v with
  | .table id => s.modifyTable id fun t => { t with metatable := m }
  | .userdata id => { s with userdata := s.userdata.modify id fun u => { u with metatable := m } }
  | .nil => { s with shared.nil := m }
  | .bool _ => { s with shared.bool := m }
  | .int _ => { s with shared.number := m }
  | .float _ => { s with shared.number := m }
  | .string _ => { s with shared.string := m }
  | .closure _ => { s with shared.function := m }
  | .builtin _ => { s with shared.function := m }
  | .host _ => { s with shared.function := m }
  | .light _ => { s with shared.light := m }
  | .thread _ => { s with shared.thread := m }

/-- A field of a value's metatable, or nil. -/
def metafield (s : Store) (v event : Value) : Value :=
  match s.metatable? v with
  | some m => (s.table m).get event
  | none => .nil

/-- How far a read or write gets without running guest code. -/
inductive Access where
  | value (v : Value)
  /-- The table to write to, without metamethods. -/
  | slot (table : Nat)
  /-- The metamethod to call, and the object it is asked for. -/
  | metamethod (f object : Value)
  /-- The value cannot be indexed; `first` tells whether it is the one the access started from. -/
  | notIndexable (v : Value) (first : Bool)
  | loop

/-- Metatables that may be passed on the way. -/
def maxChain : Nat := 2000

def readFrom (s : Store) (key : Value) : Nat → Value → Bool → Access
  | 0, _, _ => .loop
  | fuel + 1, object, first =>
    let follow (handler : Value) : Access :=
      if handler.isFunction then .metamethod handler object else s.readFrom key fuel handler false
    match object with
    | .table id =>
      let t := s.table id
      let v := t.get key
      if !v.isNil then .value v
      else
        match t.metatable with
        | none => .value .nil
        | some m =>
          let handler := (s.table m).get Event.index
          if handler.isNil then .value .nil else follow handler
    | _ =>
      let handler := s.metafield object Event.index
      if handler.isNil then .notIndexable object first else follow handler

/-- Looks `key` up in a value, following `__index`. -/
def read (s : Store) (object key : Value) : Access := s.readFrom key maxChain object true

def writeFrom (s : Store) (key : Value) : Nat → Value → Bool → Access
  | 0, _, _ => .loop
  | fuel + 1, object, first =>
    let follow (handler : Value) : Access :=
      if handler.isFunction then .metamethod handler object else s.writeFrom key fuel handler false
    match object with
    | .table id =>
      let t := s.table id
      match t.metatable with
      | none => .slot id
      | some m =>
        if !(t.get key).isNil then .slot id
        else
          let handler := (s.table m).get Event.newIndex
          if handler.isNil then .slot id else follow handler
    | _ =>
      let handler := s.metafield object Event.newIndex
      if handler.isNil then .notIndexable object first else follow handler

/-- Where a value for `key` goes, following `__newindex`. -/
def write (s : Store) (object key : Value) : Access := s.writeFrom key maxChain object true

/-- Why a table cannot hold a key, or nothing. -/
def keyProblem? : Value → Option String
  | .nil => some "table index is nil"
  | .float x => if x.isNaN then some "table index is NaN" else none
  | _ => none

def indexLoopMessage : String := "'__index' chain too long; possibly a loop"

def newIndexLoopMessage : String := "'__newindex' chain too long; possibly a loop"

/-- The type of a value for messages: a metatable may name it. -/
def typeName (s : Store) (v : Value) : Bytes :=
  let named : Option Bytes :=
    match v with
    | .table _ => name? v
    | .userdata _ => name? v
    | _ => none
  named.getD (Text.encode v.typeName)
where
  name? (v : Value) : Option Bytes :=
    match s.metafield v Event.name with
    | .string n => some n
    | _ => none

end Store

end LuaHost.Guest
