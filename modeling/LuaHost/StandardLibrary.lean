/-!
The standard libraries that a session can open.
-/

namespace LuaHost

inductive StandardLibrary where
  | base | package | coroutine | table | io | os | string | utf8 | math | debug
  deriving DecidableEq, Repr, Inhabited

namespace StandardLibrary

def all : List StandardLibrary :=
  [base, package, coroutine, table, io, os, string, utf8, math, debug]

def name : StandardLibrary → String
  | base => "base"
  | package => "package"
  | coroutine => "coroutine"
  | table => "table"
  | io => "io"
  | os => "os"
  | string => "string"
  | utf8 => "utf8"
  | math => "math"
  | debug => "debug"

def ofName? (n : String) : Option StandardLibrary := all.find? (·.name == n)

end StandardLibrary

/-- Which libraries to open. -/
inductive LibraryChoice where
  | all
  | only (libraries : List StandardLibrary)
  deriving DecidableEq, Repr, Inhabited

end LuaHost
