import LuaHost.Datum
import LuaHost.Text.Location
import LuaHost.Failure.Registry
import LuaHost.Failure.Template
/-!
What can go wrong, as causes. The wording of a failure comes from its registry template, filled in
with the details it carries.
-/

namespace LuaHost

inductive ExceptionClass where
  | error
  | typeError
  | rangeError
  deriving Repr, DecidableEq, Inhabited

def ExceptionClass.name : ExceptionClass → String
  | error => "Error"
  | typeError => "TypeError"
  | rangeError => "RangeError"

/-- Something thrown that is not a failure of this library. Two exceptions are the same object only
if their identities agree; zero stands for one that nobody holds on to. -/
structure Exception where
  kind : ExceptionClass
  message : String
  code : Option String
  identity : Nat
  deriving Repr, Inhabited

def Exception.ofMessage (kind : ExceptionClass) (message : String) : Exception :=
  ⟨kind, message, none, 0⟩

/-- The three ways in which running guest code fails. -/
inductive RuntimeCode where
  | raised
  | interpreter
  | hostFunction
  deriving Repr, DecidableEq, Inhabited

def RuntimeCode.id : RuntimeCode → String
  | raised => "LUA-R001"
  | interpreter => "LUA-R002"
  | hostFunction => "LUA-R003"

/-- Why an identifier names none of them. -/
inductive IdentifierProblem where
  | unknown (id : String)
  | notRuntime (id : String)
  deriving Repr, DecidableEq, Inhabited

def IdentifierProblem.message : IdentifierProblem → String
  | unknown id => "Unknown error ID: " ++ id
  | notRuntime id => "Expected " ++ Category.runtime.name ++ " error ID, got: " ++ id

/-- The way of failing that an identifier names. -/
def RuntimeCode.ofId (id : String) : Except IdentifierProblem RuntimeCode :=
  match [RuntimeCode.raised, .interpreter, .hostFunction].find? (·.id == id) with
  | some code => .ok code
  | none => .error (if (Registry.find? id).isSome then .notRuntime id else .unknown id)

/-- Why a handle or a value was turned away. -/
inductive Violation where
  | staleState
  | foreignValue
  | closed
  | released
  deriving Repr, DecidableEq, Inhabited

namespace Violation

def name : Violation → String
  | staleState => "stale-state"
  | foreignValue => "foreign-value"
  | closed => "closed"
  | released => "released"

def id : Violation → String
  | staleState => "LUA-L001"
  | foreignValue => "LUA-L002"
  | closed => "LUA-L003"
  | released => "LUA-L004"

end Violation

mutual

/-- A value that host code may attach to a failure or throw. -/
inductive Detail where
  | null
  | undefined
  | bool (b : Bool)
  | number (x : Float)
  | string (s : String)
  | list (items : List Detail)
  | object
  | bare
  | thrown (x : Thrown)

/-- Whatever host code can throw: a failure of this library, another exception, or a plain value. -/
inductive Thrown where
  | failure (identity : Nat) (fault : Fault)
  | exception (e : Exception)
  | value (d : Detail)

/-- What went wrong. -/
inductive Fault where
  | syntaxError (message : String) (location : Option Text.Location)
  | runtime (code : RuntimeCode) (context : List (String × Detail)) (location : Option Text.Location)
      (traceback : Option String) (errorValue : Option Datum) (cause : Option Thrown)
  | undefinedPath (keys : List String) (observed : Option String)
  | invalidPath
  | pathCollision (keys : List String) (collidesAt : List String) (observed : String)
  | decode (expected observed : String) (path : List String)
  | io (path : String) (reason : String) (cause : Thrown)
  | lineage (violation : Violation) (context : List (String × Detail))

end

instance : Inhabited Detail := ⟨.null⟩
instance : Inhabited Fault := ⟨.invalidPath⟩
instance : Inhabited Thrown := ⟨.value .null⟩

/-- What is thrown when a thing without a text is asked for its text. -/
def Thrown.noText : Thrown :=
  .exception (.ofMessage .typeError "Cannot convert object to primitive value")

/-- A fault together with the identity of the error object that reports it. -/
structure Failure where
  identity : Nat
  fault : Fault
  deriving Inhabited

def Failure.thrown (f : Failure) : Thrown := .failure f.identity f.fault

abbrev Context := List (String × Detail)

/-- The later of two entries of one name wins, in the place of the earlier. -/
def Context.insert (c : Context) (name : String) (d : Detail) : Context :=
  if c.any (·.1 == name) then c.map fun entry => if entry.1 == name then (name, d) else entry
  else c ++ [(name, d)]

def Context.ofList (entries : List (String × Detail)) : Context :=
  entries.foldl (fun c entry => Context.insert c entry.1 entry.2) []

/-- The keys of a path, joined for messages. -/
def pathText (keys : List String) : String := ".".intercalate keys

/-- Where in a composite value a decoder stopped. -/
def positionText (path : List String) : String :=
  if path.isEmpty then "" else " at " ++ String.join path

namespace Fault

def id : Fault → String
  | syntaxError .. => "LUA-S001"
  | runtime code .. => code.id
  | undefinedPath _ none => "LUA-P001"
  | undefinedPath _ (some _) => "LUA-P004"
  | invalidPath => "LUA-P002"
  | pathCollision .. => "LUA-P003"
  | decode .. => "LUA-D001"
  | io .. => "LUA-I001"
  | lineage v _ => v.id

def kind : Fault → String
  | syntaxError .. => "syntax"
  | runtime .. => "runtime"
  | undefinedPath .. => "undefined-path"
  | invalidPath => "invalid-path"
  | pathCollision .. => "path-collision"
  | decode .. => "decode"
  | io .. => "io"
  | lineage .. => "lineage"

/-- The name under which a failure is shown when it is itself put into a text. -/
def className : Fault → String
  | syntaxError .. => "LuaSyntaxError"
  | runtime .. => "LuaRuntimeError"
  | undefinedPath .. => "UndefinedPathError"
  | invalidPath => "InvalidPathError"
  | pathCollision .. => "PathCollisionError"
  | decode .. => "DecodeFailure"
  | io .. => "IoError"
  | lineage .. => "LineageError"

/-- The details of a failure, as they are shown to the host. -/
def context : Fault → Context
  | syntaxError .. => []
  | runtime _ c .. => c
  | undefinedPath keys none => [("path", .string (pathText keys))]
  | undefinedPath keys (some o) => [("path", .string (pathText keys)), ("observed", .string o)]
  | invalidPath => []
  | pathCollision keys prior o =>
    [("path", .string (pathText keys)), ("at", .string (pathText prior)), ("observed", .string o)]
  | decode e o path =>
    [("expected", .string e), ("observed", .string o), ("where", .string (positionText path))]
  | io path reason _ => [("path", .string path), ("reason", .string reason)]
  | lineage _ c => c

def location? : Fault → Option Text.Location
  | syntaxError _ l => l
  | runtime _ _ l .. => l
  | _ => none

def cause? : Fault → Option Thrown
  | runtime _ _ _ _ _ c => c
  | io _ _ c => some c
  | _ => none

/-- The same decode failure one level further out. -/
def within (segment : String) : Fault → Fault
  | decode e o path => decode e o (segment :: path)
  | f => f

end Fault

end LuaHost
