import LuaHost.Guest.Machine
import LuaHost.StandardLibrary
/-!
A machine at its start: the globals, the libraries that were asked for, and the metatable of the objects
that stand for failures of the host. Tables are traversed in the order in which they are filled here.
-/

namespace LuaHost.Guest

/-- What a library's table holds besides other tables. -/
abbrev Member := String × Value

def builtins (members : List (String × Builtin)) : List Member :=
  members.map fun (name, f) => (name, .builtin f)

def unavailable (library : String) (names : List String) : List Member :=
  names.map fun name => (name, .builtin (.unavailable (library ++ "." ++ name)))

def baseMembers : List Member := builtins [
  ("assert", .assert), ("collectgarbage", .collectgarbage), ("dofile", .dofile), ("error", .error),
  ("getmetatable", .getmetatable), ("ipairs", .ipairs), ("load", .load), ("loadfile", .loadfile),
  ("next", .next), ("pairs", .pairs), ("pcall", .pcall), ("print", .print),
  ("rawequal", .rawequal), ("rawget", .rawget), ("rawlen", .rawlen), ("rawset", .rawset),
  ("select", .select), ("setmetatable", .setmetatable), ("tonumber", .tonumber),
  ("tostring", .tostring), ("type", .type), ("xpcall", .xpcall)]

def coroutineMembers : List Member := builtins [
  ("create", .coCreate), ("isyieldable", .coIsYieldable), ("resume", .coResume),
  ("running", .coRunning), ("status", .coStatus), ("wrap", .coWrap), ("yield", .coYield)]

def tableMembers : List Member := builtins [
  ("concat", .tableConcat), ("insert", .tableInsert), ("move", .tableMove), ("pack", .tablePack),
  ("remove", .tableRemove), ("sort", .tableSort), ("unpack", .tableUnpack)]

def stringMembers : List Member :=
  builtins [("byte", .strByte), ("char", .strChar)] ++ unavailable "string" ["dump"] ++
  builtins [("find", .strFind), ("format", .strFormat), ("gmatch", .strGmatch), ("gsub", .strGsub),
    ("len", .strLen), ("lower", .strLower), ("match", .strMatch)] ++
  unavailable "string" ["pack", "packsize"] ++
  builtins [("rep", .strRep), ("reverse", .strReverse), ("sub", .strSub)] ++
  unavailable "string" ["unpack"] ++ builtins [("upper", .strUpper)]

/-- One character as a pattern: a first byte, and the bytes that continue it. -/
def charPattern : Bytes := ⟨#[91, 0, 45, 0x7f, 0xc2, 45, 0xf4, 93, 91, 0x80, 45, 0xbf, 93, 42]⟩

def utf8Members : List Member := builtins [
  ("char", .utf8Char), ("codepoint", .utf8Codepoint), ("codes", .utf8Codes), ("len", .utf8Len),
  ("offset", .utf8Offset)] ++ [("charpattern", .string charPattern)]

def mathMembers : List Member :=
  builtins [
    ("abs", .mathAbs), ("acos", .mathAcos), ("asin", .mathAsin), ("atan", .mathAtan),
    ("ceil", .mathCeil), ("cos", .mathCos), ("deg", .mathDeg), ("exp", .mathExp),
    ("floor", .mathFloor), ("fmod", .mathFmod), ("log", .mathLog), ("max", .mathMax),
    ("min", .mathMin), ("modf", .mathModf), ("rad", .mathRad)] ++
  unavailable "math" ["random", "randomseed"] ++
  builtins [
    ("sin", .mathSin), ("sqrt", .mathSqrt), ("tan", .mathTan), ("tointeger", .mathTointeger),
    ("type", .mathType), ("ult", .mathUlt)] ++
  [("pi", .float 3.141592653589793), ("huge", .float (1.0 / 0.0)),
    ("maxinteger", .int (Int32.ofInt int32Max)), ("mininteger", .int (Int32.ofInt int32Min))]

def osMembers : List Member := unavailable "os" [
  "clock", "date", "difftime", "execute", "exit", "getenv", "remove", "rename", "time", "tmpname"]

def ioMembers : List Member := unavailable "io" [
  "close", "flush", "input", "lines", "open", "output", "popen", "read", "tmpfile", "type", "write"]

def fileMembers : List Member := unavailable "file" [
  "close", "flush", "lines", "read", "setvbuf", "write"]

def debugMembers : List Member :=
  unavailable "debug" ["gethook"] ++ builtins [("getinfo", .debugGetinfo)] ++
  unavailable "debug" ["getlocal"] ++ builtins [("getmetatable", .debugGetmetatable)] ++
  unavailable "debug" ["getregistry", "getupvalue", "getuservalue", "sethook", "setlocal"] ++
  builtins [("setmetatable", .debugSetmetatable)] ++
  unavailable "debug" ["setupvalue", "setuservalue"] ++
  builtins [("traceback", .debugTraceback)] ++ unavailable "debug" ["upvalueid", "upvaluejoin"]

/-- Where libraries are looked for unless a session says otherwise. -/
def defaultPath : String :=
  "/usr/local/share/lua/5.3/?.lua;/usr/local/share/lua/5.3/?/init.lua;./?.lua;./?/init.lua"

def defaultNativePath : String :=
  "/usr/local/share/lua/5.3/?.js;/usr/local/share/lua/5.3/loadall.js;./?.js"

/-- The characters that paths are written with, a line each. -/
def pathConfiguration : String := "/\n;\n?\n!\n-\n"

namespace Store

def fill (t : Table) (members : List Member) : Table :=
  members.foldl (fun t (name, v) => t.setText name v) t

def makeTable (s : Store) (members : List Member) : Store × Nat := s.newTable (fill {} members)

def setField (s : Store) (table : Nat) (name : String) (v : Value) : Store :=
  s.modifyTable table fun t => t.setText name v

/-- Objects that a library makes and that are not kept here. -/
def hiddenObjects : StandardLibrary → Nat
  | .package => 8
  | _ => 0

def openPackage (s : Store) : Store × Nat :=
  let (s, searchers) := s.newTable (([Builtin.packageSearchPreload, .packageSearchSource,
    .packageSearchNative].zipIdx 1).foldl (fun t (f, i) => t.setInt (Int32.ofNat i) (.builtin f)) {})
  let (s, package) := s.makeTable (unavailable "package" ["loadlib"] ++
    builtins [("searchpath", .packageSearchpath)] ++
    [("searchers", .table searchers), ("path", ofText defaultPath),
      ("cpath", ofText defaultNativePath), ("config", ofText pathConfiguration),
      ("loaded", .table s.loaded), ("preload", .table s.preload)])
  ({ s with package }.setField s.globals "require" (.builtin .require), package)

def openString (s : Store) : Store × Nat :=
  let (s, library) := s.makeTable stringMembers
  let (s, metatable) := s.makeTable [("__index", .table library)]
  ({ s with shared.string := some metatable }, library)

def openIo (s : Store) : Store × Nat :=
  let (s, library) := s.makeTable ioMembers
  let (s, metatable) := s.makeTable [("__name", ofText "FILE*")]
  let s := s.modifyTable metatable fun t => fill t (("__index", .table metatable) :: fileMembers)
  let file (s : Store) (name : String) : Store :=
    let (s, id) := s.newUserdata ⟨some metatable⟩
    s.setField library name (.userdata id)
  (file (file (file s "stdin") "stdout") "stderr", library)

def openBase (s : Store) : Store × Nat :=
  let s := s.modifyTable s.globals fun t => fill t baseMembers
  let s := s.setField s.globals "_G" (.table s.globals)
  (s.setField s.globals "_VERSION" (ofText "Lua 5.3"), s.globals)

/-- Makes the table of a library. -/
def makeLibrary (s : Store) : StandardLibrary → Store × Nat
  | .base => s.openBase
  | .package => s.openPackage
  | .coroutine => s.makeTable coroutineMembers
  | .table => s.makeTable tableMembers
  | .io => s.openIo
  | .os => s.makeTable osMembers
  | .string => s.openString
  | .utf8 => s.makeTable utf8Members
  | .math => s.makeTable mathMembers
  | .debug => s.makeTable debugMembers

/-- The global variable that holds a library. -/
def globalName : StandardLibrary → String
  | .base => "_G"
  | l => l.name

/-- Opens a library unless it is open, and makes it a global variable. -/
def openLibrary (s : Store) (l : StandardLibrary) : Store :=
  let name := globalName l
  let known := (s.table s.loaded).getText name
  if known.truthy then s.setField s.globals name known
  else
    let (s, library) := s.makeLibrary l
    let s := { s with unlisted := s.unlisted + hiddenObjects l }
    (s.setField s.loaded name (.table library)).setField s.globals name (.table library)

/-- The order in which all libraries are opened. -/
def openingOrder : List StandardLibrary :=
  [.base, .package, .coroutine, .table, .os, .string, .math, .utf8, .debug, .io]

/-- The type that objects for failures of the host show in messages. -/
def hostErrorName : String := "lua-bridge.HostError"

/-- A heap with some libraries, and with a place to look for more of them if one is given. -/
def start (libraries : LibraryChoice) (path : Option String) : Store :=
  let (s, globals) := ({} : Store).newTable {}
  let (s, loaded) := s.newTable {}
  let (s, preload) := s.newTable {}
  let s := { s with globals, loaded, preload }
  let (libraries, unlisted) := match libraries with
    | .all => (openingOrder, 2)
    | .only ls => (ls, if ls.isEmpty then 0 else 1)
  let s := libraries.foldl openLibrary { s with unlisted }
  let (s, hostError) := s.makeTable
    [("__name", ofText hostErrorName), ("__tostring", .builtin .hostErrorToString)]
  let s := { s with hostError }
  match path, (s.table globals).getText "package" with
  | some path, .table package => s.setField package "path" (ofText path)
  | _, _ => s

end Store

def Machine.start (libraries : LibraryChoice) (path : Option String) : Machine :=
  { store := Store.start libraries path }

end LuaHost.Guest
