import LuaHost.Guest.Machine
import LuaHost.Guest.ChunkName
/-!
Who is active: the functions of a thread, innermost first, with their names and positions, and the
traceback that shows them. Marks that the machine puts between functions do not count.
-/

namespace LuaHost.Guest

/-- The mark that stands for the source of library functions. -/
def nativeMark : Bytes := Text.encode "[JS]"

namespace Machine

/-- All frames of a thread, innermost first. -/
def frames (m : Machine) (thread : Option Nat) : List Frame :=
  match thread with
  | none => m.frame :: m.callers
  | some t =>
    if t == m.current then m.frame :: m.callers
    else
      match m.threads[t]? with
      | some t => t.frame :: t.callers
      | none => []

/-- What a function is called by the one below it; nothing is known of calls from the outside. -/
def nameFromCaller (isTailCall : Bool) : List Frame → Option Naming.Named
  | .handling _ :: below => nameFromCaller isTailCall below
  | .compiled a :: _ => if isTailCall then none else Naming.ofCall? a.prototype a.current
  | _ => none

def describe (m : Machine) (frame : Frame) (below : List Frame) : Option ActiveFunction :=
  match frame with
  | .compiled a =>
    let p := a.prototype
    some
      { function := .closure a.closure
        chunk := ChunkName.untilZero (ChunkName.shown p.source)
        source := p.source
        isNative := false
        lineDefined := p.lineDefined
        lastLine := p.lastLine
        line := a.line
        name := nameFromCaller a.isTailCall below
        isTailCall := a.isTailCall
        upvalues := p.upvalues.size
        parameters := p.parameters
        isVararg := p.isVararg }
  | .native n =>
    some
      { function := n.function
        chunk := nativeMark
        source := Text.encode "=" ++ nativeMark
        isNative := true
        lineDefined := -1
        lastLine := -1
        line := -1
        name := nameFromCaller false below
        isTailCall := false
        upvalues := match n.function with
          | .closure id =>
            match m.store.closures[id]? with
            | some (.resumes _) => 1
            | some (.matches ..) => 3
            | _ => 0
          | _ => 0
        parameters := 0
        isVararg := true }
  | _ => none

/-- The active functions among some frames. -/
def describeAll (m : Machine) : List Frame → List ActiveFunction
  | [] => []
  | frame :: below =>
    match m.describe frame below with
    | some a => a :: m.describeAll below
    | none => m.describeAll below

def activeFunctions (m : Machine) (thread : Option Nat) : List ActiveFunction :=
  m.describeAll (m.frames thread)

/-- The first name in a table, or in the tables in it, under which a value is found. -/
def nameInTable? (s : Store) (v : Value) : Nat → Nat → Option Bytes
  | 0, _ => none
  | depth + 1, table =>
    (s.table table).toList.findSome? fun
      | (.string name, entry) =>
        if v.rawEquals entry then some name
        else
          match entry with
          | .table inner =>
            (nameInTable? s v depth inner).map fun rest => name ++ Text.encode "." ++ rest
          | _ => none
      | _ => none

def globalMark : Bytes := Text.encode "_G."

/-- The name of a function as a global, or as a member of a loaded library. -/
def globalName? (m : Machine) (f : Value) : Option Bytes :=
  (nameInTable? m.store f 2 m.store.loaded).map fun name =>
    if name.extract 0 globalMark.size == globalMark then name.extract globalMark.size name.size
    else name

/-- The position of a function in front of a message; library functions have none. -/
def positionText (a : ActiveFunction) : Bytes :=
  if a.line > 0 then a.chunk ++ Text.encode (":" ++ toString a.line ++ ": ") else ByteArray.empty

def position (m : Machine) (level : Nat) : Bytes :=
  match (m.activeFunctions none)[level]? with
  | some a => positionText a
  | none => ByteArray.empty

/-- How a function is called in a traceback. -/
def functionText (m : Machine) (a : ActiveFunction) : Bytes :=
  match m.globalName? a.function with
  | some name => Text.encode "function '" ++ name ++ Text.encode "'"
  | none =>
    match a.name with
    | some (kind, name) => Text.encode (kind ++ " '") ++ name ++ Text.encode "'"
    | none =>
      if a.isNative then Text.encode "?"
      else if a.lineDefined == 0 then Text.encode "main chunk"
      else
        Text.encode "function <" ++ a.chunk ++ Text.encode (":" ++ toString a.lineDefined ++ ">")

def levelText (m : Machine) (a : ActiveFunction) : Bytes :=
  let line := if a.line > 0 then toString a.line ++ ":" else ""
  Text.encode "\n\t" ++ a.chunk ++ Text.encode (":" ++ line ++ " in ") ++ m.functionText a
    ++ (if a.isTailCall then Text.encode "\n\t(...tail calls..)" else ByteArray.empty)

/-- Levels shown at the start and at the end of a long traceback. -/
def headLevels : Nat := 10
def tailLevels : Nat := 11

/-- The traceback of a thread from a level on. -/
def tracebackText (m : Machine) (thread : Option Nat) (message : Option Bytes) (level : Nat) : Bytes :=
  let all := m.activeFunctions thread
  let last : Int := (all.length : Int) - 1
  let shown := all.drop level
  let isLong := last - level > headLevels + tailLevels
  let text (levels : List ActiveFunction) : Bytes :=
    (levels.map m.levelText).foldl (· ++ ·) ByteArray.empty
  let heading := (match message with
    | some t => t ++ Text.encode "\n"
    | none => ByteArray.empty) ++ Text.encode "stack traceback:"
  if isLong then
    heading ++ text (shown.take headLevels) ++ Text.encode "\n\t..."
      ++ text (all.drop (last - tailLevels + 1).toNat)
  else heading ++ text shown

end Machine

end LuaHost.Guest
