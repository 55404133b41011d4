import LuaHost.Guest.Lexer
import LuaHost.Guest.Code
import Std.Data.HashMap
/-!
What the compiler knows while it reads source text in one pass: the tokens at hand, the function being
compiled with those around it, and the labels and jumps still open.
-/

namespace LuaHost.Guest.Compiler

/-- Where the value of an expression is, or how it can be had. -/
inductive Place where
  | void
  | nil
  | true
  | false
  | constant (index : Nat)
  | float (x : Float)
  | int (n : Int32)
  | register (r : Nat)
  | localVar (r : Nat)
  | upvalue (index : Nat)
  | indexed (table : Nat) (tableIsUpvalue : Bool) (key : Nat)
  | jump (pc : Nat)
  | relocatable (pc : Nat)
  | call (pc : Nat)
  | vararg (pc : Nat)
  deriving Inhabited

/-- The end of a list of jumps; a list is held by its first jump. -/
def noJump : Int := -1

structure Expression where
  place : Place := .void
  /-- Jumps taken when the expression is true, and when it is false. -/
  whenTrue : Int := noJump
  whenFalse : Int := noJump
  deriving Inhabited

namespace Expression

def hasJumps (e : Expression) : Bool := e.whenTrue != e.whenFalse

def isVoid (e : Expression) : Bool := match e.place with | .void => Bool.true | _ => Bool.false

/-- Calls and varargs may have any number of results. -/
def isMultiple (e : Expression) : Bool :=
  match e.place with
  | .call _ => Bool.true
  | .vararg _ => Bool.true
  | _ => Bool.false

end Expression

structure Block where
  firstLabel : Nat
  firstGoto : Nat
  activeLocals : Nat
  captured : Bool
  isLoop : Bool
  deriving Inhabited

/-- A label, or a jump to one: a name, a position, and the locals alive there. -/
structure Label where
  name : Bytes
  pc : Nat
  line : Nat
  activeLocals : Nat
  deriving Inhabited

/-- Constants that may share a place in the constant table. -/
inductive ConstantKey where
  | nil
  | bool (b : Bool)
  | int (n : Int32)
  | float (bits : UInt64)
  | string (s : Bytes)
  deriving DecidableEq, Hashable

structure Function where
  number : Nat := 0
  lineDefined : Nat
  lastLine : Nat := 0
  parameters : Nat := 0
  isVararg : Bool := Bool.false
  registers : Nat := 2
  code : Array Instruction := #[]
  lines : Array Nat := #[]
  constants : Array Value := #[]
  constantIndex : Std.HashMap ConstantKey Nat := {}
  prototypes : Array Prototype := #[]
  upvalues : Array UpvalueSource := #[]
  locals : Array LocalName := #[]
  blocks : List Block := []
  /-- The last position that is the target of a jump. -/
  lastTarget : Nat := 0
  /-- Jumps to the next instruction. -/
  pendingJumps : Int := noJump
  activeLocals : Nat := 0
  /-- Where the locals of this function begin among those of all open functions. -/
  firstLocal : Nat := 0
  freeRegister : Nat := 0
  deriving Inhabited

structure State where
  lexer : Lexer
  token : Token := { kind := .eos }
  ahead : Option Token := none
  /-- The line of the last token that was used up. -/
  lastLine : Nat := 1
  function : Function
  enclosing : List Function := []
  /-- The declared locals of all open functions, by their number in their own function. -/
  declared : Array Nat := #[]
  gotos : Array Label := #[]
  labels : Array Label := #[]
  /-- Functions opened so far. -/
  functions : Nat := 1
  /-- How many constructs are nested at this point. -/
  depth : Nat
  deriving Inhabited

abbrev CompileM := EStateM CompileError State

/-- The deepest nesting, the calls around the compiler included. -/
def maxDepth : Nat := 200

def text (s : String) : Bytes := ChunkName.bytes s

/-- A failure at the current line, about the current token if `near` is given. -/
def failAt {α : Type} (message : Bytes) (near : Option TokenKind) : CompileM α := do
  throw ((← get).lexer.failure message near)

def syntaxFailure {α : Type} (message : Bytes) : CompileM α := do
  failAt message (some (← get).token.kind)

/-- A failure that has nothing to do with the current token. -/
def semanticFailure {α : Type} (message : Bytes) : CompileM α := failAt message none

def modifyFunction (f : Function → Function) : CompileM Unit :=
  modify fun s => { s with function := f s.function }

def getFunction : CompileM Function := return (← get).function

def scanToken : CompileM Token := do
  let s ← get
  match Lexer.next s.lexer with
  | .ok t lexer =>
    set { s with lexer }
    return t
  | .error e _ => throw e

/-- Uses up the current token. -/
def next : CompileM Unit := do
  modify fun s => { s with lastLine := s.lexer.line }
  match (← get).ahead with
  | some t => modify fun s => { s with token := t, ahead := none }
  | none =>
    let t ← scanToken
    modify fun s => { s with token := t }

/-- The token after the current one. -/
def lookAhead : CompileM TokenKind := do
  let t ← scanToken
  modify fun s => { s with ahead := some t }
  return t.kind

def kind : CompileM TokenKind := return (← get).token.kind

def char (c : Char) : TokenKind := .char (Lexer.byte c)

def isAt (k : TokenKind) : CompileM Bool := return (← kind) == k

def accept (k : TokenKind) : CompileM Bool := do
  if ← isAt k then
    next
    return Bool.true
  else return Bool.false

def expectedFailure {α : Type} (k : TokenKind) : CompileM α :=
  syntaxFailure (text (k.text ++ " expected"))

def check (k : TokenKind) : CompileM Unit := do
  if !(← isAt k) then expectedFailure k

def expect (k : TokenKind) : CompileM Unit := do
  check k
  next

def require (ok : Bool) (message : String) : CompileM Unit := do
  if !ok then syntaxFailure (text message)

def currentLine : CompileM Nat := return (← get).lexer.line

/-- Expects what closes a construct; if that was opened on another line, a failure names the line. -/
def expectClosing (closing opening : TokenKind) (line : Nat) : CompileM Unit := do
  if !(← accept closing) then
    if line == (← currentLine) then expectedFailure closing
    else
      syntaxFailure (text (closing.text ++ " expected (to close " ++ opening.text ++ " at line "
        ++ toString line ++ ")"))

def expectName : CompileM Bytes := do
  check .name
  let name := (← get).token.text
  next
  return name

/-- A count beyond a limit, in the function that starts at `line`. -/
def limitFailure {α : Type} (line limit : Nat) (what : String) : CompileM α :=
  let place := if line == 0 then "main function" else "function at line " ++ toString line
  syntaxFailure (text ("too many " ++ what ++ " (limit is " ++ toString limit ++ ") in " ++ place))

def checkLimit (value limit : Nat) (what : String) : CompileM Unit := do
  if value > limit then limitFailure (← getFunction).lineDefined limit what

/-- Runs a construct one level deeper. -/
def nested {α : Type} (body : CompileM α) : CompileM α := do
  modify fun s => { s with depth := s.depth + 1 }
  checkLimit (← get).depth maxDepth "JS levels"
  let a ← body
  modify fun s => { s with depth := s.depth - 1 }
  return a

/-- Repeats `step` until it comes to a result; each round uses up source text. -/
def loop {α β : Type} (step : α → CompileM (α ⊕ β)) : Nat → α → CompileM β
  | 0, _ => throw ⟨ByteArray.empty⟩
  | fuel + 1, a => do
    match ← step a with
    | .inl a => loop step fuel a
    | .inr b => return b

/-- More rounds than a loop over the rest of the source can take. -/
def rounds : CompileM Nat := return (← get).lexer.source.size + 2

def iterate {α β : Type} (a : α) (step : α → CompileM (α ⊕ β)) : CompileM β := do
  loop step (← rounds) a

end LuaHost.Guest.Compiler
