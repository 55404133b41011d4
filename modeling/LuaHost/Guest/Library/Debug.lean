import LuaHost.Guest.Library.Base
/-!
A look at active functions, tracebacks, and metatables without their guards.
-/

namespace LuaHost.Guest.Library

variable (args : Arguments)

/-- The thread that a function is about, and how many arguments name it. -/
def threadOption : Option Nat × Nat :=
  match args.get 1 with
  | .thread t => (some t, 1)
  | _ => (none, 0)

def debugTraceback : Act (List Value) := do
  let (thread, shift) := threadOption args
  let message := args.get (shift + 1)
  match Arguments.text? message, message.isNil with
  | none, false => return [message]
  | text, _ =>
    let fresh : Int32 := if thread.isSome then 0 else 1
    let level ← args.optInt (shift + 2) fresh
    fun k => .traceback thread text level.toNatClampNeg fun t => k [.string t]

def debugGetmetatable : Act (List Value) := do
  let v ← args.any 1
  return [← Act.query fun s => ((s.metatable? v).map Value.table).getD .nil]

def debugSetmetatable : Act (List Value) := do
  let m ← metatableArgument args
  let v := args.get 1
  Act.update fun s => s.setMetatable v m
  return [v]

/-- What a function is, as far as it can be told without a call of it. -/
def describeFunction (f : Value) : Act ActiveFunction := do
  let native : ActiveFunction :=
    { function := f
      chunk := Text.encode "[JS]"
      source := Text.encode "=[JS]"
      isNative := true
      lineDefined := -1
      lastLine := -1
      line := -1
      name := none
      isTailCall := false
      upvalues := 0
      parameters := 0
      isVararg := true }
  match f with
  | .closure id =>
    match ← Act.query fun s => s.closures.getD id default with
    | .compiled _ p _ =>
      return { native with
        chunk := ChunkName.untilZero (ChunkName.shown p.source)
        source := p.source
        isNative := false
        lineDefined := p.lineDefined
        lastLine := p.lastLine
        upvalues := p.upvalues.size
        parameters := p.parameters
        isVararg := p.isVararg }
    | _ => return native
  | _ => return native

/-- The fields that a letter asks for. -/
def infoFields (a : ActiveFunction) (letter : Char) : List (String × Value) :=
  let int (n : Int) : Value := .int (Int32.ofInt n)
  match letter with
  | 'S' =>
    [("source", .string a.source), ("short_src", .string a.chunk),
      ("linedefined", int a.lineDefined), ("lastlinedefined", int a.lastLine),
      ("what", ofText (if a.isNative then "JS" else if a.lineDefined == 0 then "main" else "Lua"))]
  | 'l' => [("currentline", int a.line)]
  | 'u' =>
    [("nups", int a.upvalues), ("nparams", int a.parameters), ("isvararg", .bool a.isVararg)]
  | 'n' =>
    match a.name with
    | some (kind, name) => [("name", .string name), ("namewhat", ofText kind)]
    | none => [("namewhat", ofText "")]
  | 't' => [("istailcall", .bool a.isTailCall)]
  | 'f' => [("func", a.function)]
  | _ => []

/-- The letters in the order in which their fields are stored. -/
def infoLetters : List Char := ['S', 'l', 'u', 'n', 't', 'f']

def debugGetinfo : Act (List Value) := do
  let (thread, shift) := threadOption args
  let letters := Numeral.chars (← args.optString (shift + 2) (Text.encode "flnStu"))
  let table (a : ActiveFunction) : Act (List Value) := do
    Act.require (letters.all fun c => infoLetters.contains c || c == 'L') (shift + 2) "invalid option"
    let fields := (infoLetters.filter letters.contains).flatMap (infoFields a)
    return [← Act.newTable (fields.foldl (fun t (name, v) => t.setText name v) {})]
  let f := args.get (shift + 1)
  if f.isFunction then table (← describeFunction f)
  else
    let level ← args.int (shift + 1)
    if level < 0 then return [.nil]
    else
      match ← (fun k => .activeFunction thread level.toNatClampNeg k : Act (Option ActiveFunction)) with
      | none => return [.nil]
      | some a => table a

end LuaHost.Guest.Library
