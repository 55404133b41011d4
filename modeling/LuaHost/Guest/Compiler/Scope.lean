import LuaHost.Guest.Compiler.Emit
/-!
Names in source text: local variables and the instructions between which they live, variables captured
by inner functions, blocks, and labels with the jumps to them.
-/

namespace LuaHost.Guest.Compiler

/-- Local variables of one function. -/
def maxLocals : Nat := 200

/-- Variables one function may capture. -/
def maxUpvalues : Nat := 255

/-! ### Local variables -/

/-- Declares a local variable; it is not visible yet. -/
def declareLocal (name : Bytes) : CompileM Unit := do
  let s ← get
  checkLimit (s.declared.size + 1 - s.function.firstLocal) maxLocals "local variables"
  let number := s.function.locals.size
  modifyFunction fun f => { f with locals := f.locals.push ⟨name, 0, 0⟩ }
  modify fun s => { s with declared := s.declared.push number }

/-- The number of the local variable in a register among all that the function has declared. -/
def localNumber (s : State) (f : Function) (register : Nat) : Nat :=
  s.declared.getD (f.firstLocal + register) 0

def localName (register : Nat) : CompileM Bytes := do
  let s ← get
  return ((s.function.locals[localNumber s s.function register]?).map (·.name)).getD ByteArray.empty

def setLocalStart (register start : Nat) : CompileM Unit := do
  let s ← get
  let number := localNumber s s.function register
  modifyFunction fun f => { f with locals := f.locals.modify number fun v => { v with start } }

/-- Makes declared variables visible from the next instruction on. -/
def activateLocals (count : Nat) : CompileM Unit := do
  let f ← getFunction
  let here ← pc
  for i in List.range count do
    setLocalStart (f.activeLocals + i) here
  modifyFunction fun f => { f with activeLocals := f.activeLocals + count }

/-- Ends the life of the variables above a level. -/
def removeLocals (level : Nat) : CompileM Unit := do
  let s ← get
  let f := s.function
  let here := f.code.size
  let numbers := (List.range (f.activeLocals - level)).map fun i => localNumber s f (level + i)
  let locals := numbers.foldl (fun ls n => ls.modify n fun v => { v with stop := here }) f.locals
  modify fun s => { s with
    function := { f with locals, activeLocals := level }
    declared := s.declared.extract 0 (s.declared.size - (f.activeLocals - level)) }

/-! ### Captured variables -/

def findLocal? (s : State) (f : Function) (name : Bytes) : Option Nat :=
  (List.range f.activeLocals).reverse.find? fun r =>
    ((f.locals[localNumber s f r]?).map (·.name)) == some name

def findUpvalue? (f : Function) (name : Bytes) : Option Nat :=
  f.upvalues.findIdx? (·.name == name)

/-- Marks the block in which a variable lives: leaving it has to close the variable. -/
def markCaptured (f : Function) (register : Nat) : Function :=
  let rec mark : List Block → List Block
    | [] => []
    | b :: rest => if b.activeLocals > register then b :: mark rest else { b with captured := true } :: rest
  { f with blocks := mark f.blocks }

/-- Where a name is found, seen from a function and those around it. Functions on the way capture it;
a function that would capture too many variables is reported by the line it starts at. -/
def resolve (s : State) (name : Bytes) (innermost : Bool) :
    Function → List Function → Except Nat (Place × Function × List Function)
  | f, outer =>
    match findLocal? s f name with
    | some r => .ok (.localVar r, if innermost then f else markCaptured f r, outer)
    | none =>
      match findUpvalue? f name with
      | some i => .ok (.upvalue i, f, outer)
      | none =>
        match outer with
        | [] => .ok (.void, f, [])
        | g :: rest =>
          match resolve s name false g rest with
          | .error line => .error line
          | .ok (place, g, rest) =>
            let captured (inStack : Bool) (i : Nat) :=
              if f.upvalues.size + 1 > maxUpvalues then .error f.lineDefined
              else
                .ok (.upvalue f.upvalues.size,
                  { f with upvalues := f.upvalues.push ⟨name, inStack, i⟩ }, g :: rest)
            match place with
            | .localVar r => captured true r
            | .upvalue i => captured false i
            | _ => .ok (.void, f, g :: rest)

def resolveName (name : Bytes) : CompileM Place := do
  let s ← get
  match resolve s name true s.function s.enclosing with
  | .ok (place, function, enclosing) =>
    set { s with function, enclosing }
    return place
  | .error line => limitFailure line maxUpvalues "upvalues"

/-- The name of the variable that holds the globals. -/
def environmentName : Bytes := text "_ENV"

/-- A variable by its name; a name that is nowhere declared is a field of the globals. -/
def variableExpression (name : Bytes) : CompileM Expression := do
  match ← resolveName name with
  | .void =>
    let table ← resolveName environmentName
    let key ← stringExpression name
    index { place := table } key
  | place => return { place }

/-! ### Blocks, labels and jumps to labels -/

def currentBlock : CompileM Block := do
  return ((← getFunction).blocks.head?).getD default

def enterBlock (isLoop : Bool) : CompileM Unit := do
  let s ← get
  let block : Block :=
    { firstLabel := s.labels.size
      firstGoto := s.gotos.size
      activeLocals := s.function.activeLocals
      captured := false
      isLoop }
  modifyFunction fun f => { f with blocks := block :: f.blocks }

def quotedBytes (b : Bytes) : Bytes := text "'" ++ b ++ text "'"

/-- Sends a jump to its label, unless that would enter the scope of a local variable. -/
def closeGoto (i : Nat) (label : Label) : CompileM Unit := do
  let jump := ((← get).gotos[i]?).getD default
  if jump.activeLocals < label.activeLocals then
    let name ← localName jump.activeLocals
    semanticFailure (text "<goto " ++ jump.name ++ text ("> at line " ++ toString jump.line
      ++ " jumps into the scope of local ") ++ quotedBytes name)
  patchList jump.pc label.pc
  modify fun s => { s with gotos := s.gotos.eraseIdxIfInBounds i }

/-- Looks for the label of a jump in the current block. -/
def findLabel (i : Nat) : CompileM Bool := do
  let block ← currentBlock
  let s ← get
  let jump := (s.gotos[i]?).getD default
  let visible := s.labels.extract block.firstLabel s.labels.size
  match visible.find? (·.name == jump.name) with
  | some label =>
    if jump.activeLocals > label.activeLocals
        && (block.captured || s.labels.size > block.firstLabel) then
      patchClose jump.pc label.activeLocals
    closeGoto i label
    return true
  | none => return false

def addGoto (name : Bytes) (line site : Nat) : CompileM Unit := do
  let active := (← getFunction).activeLocals
  let i := (← get).gotos.size
  modify fun s => { s with gotos := s.gotos.push ⟨name, site, line, active⟩ }
  let _ ← findLabel i

/-- Closes the open jumps of the current block that wait for a label. -/
def closeGotos (label : Label) : CompileM Unit := do
  let first := (← currentBlock).firstGoto
  loop (fun (i : Nat) => do
    match (← get).gotos[i]? with
    | none => return .inr ()
    | some jump =>
      if jump.name == label.name then
        closeGoto i label
        return .inl i
      else return .inl (i + 1)) (2 * (← get).gotos.size + 2) first

/-- Hands open jumps over to the block around the one just left. -/
def moveGotosOut (left : Block) : CompileM Unit := do
  loop (fun (i : Nat) => do
    match (← get).gotos[i]? with
    | none => return .inr ()
    | some jump =>
      if jump.activeLocals > left.activeLocals then
        if left.captured then patchClose jump.pc left.activeLocals
        modify fun s => { s with
          gotos := s.gotos.modify i fun g => { g with activeLocals := left.activeLocals } }
      if ← findLabel i then return .inl i else return .inl (i + 1))
    (2 * (← get).gotos.size + 2) left.firstGoto

def breakName : Bytes := text "break"

/-- Jumps out of the loop that ends here arrive at this point. -/
def closeBreaks : CompileM Unit := do
  let label : Label := ⟨breakName, ← pc, 0, (← getFunction).activeLocals⟩
  modify fun s => { s with labels := s.labels.push label }
  closeGotos label

def openGotoFailure (jump : Label) : CompileM Unit :=
  if jump.name == breakName then
    semanticFailure (text ("<break> at line " ++ toString jump.line ++ " not inside a loop"))
  else
    semanticFailure (text "no visible label " ++ quotedBytes jump.name
      ++ text (" for <goto> at line " ++ toString jump.line))

def leaveBlock : CompileM Unit := do
  let block ← currentBlock
  let outer := (← getFunction).blocks.drop 1
  if !outer.isEmpty && block.captured then
    let j ← emitJump
    patchClose j block.activeLocals
    patchToHere j
  if block.isLoop then closeBreaks
  modifyFunction fun f => { f with blocks := outer }
  removeLocals block.activeLocals
  setFreeRegister (← getFunction).activeLocals
  modify fun s => { s with labels := s.labels.extract 0 block.firstLabel }
  if !outer.isEmpty then moveGotosOut block
  else
    match (← get).gotos[block.firstGoto]? with
    | some jump => openGotoFailure jump
    | none => return

/-! ### Functions -/

def openFunction (line : Nat) : CompileM Unit := do
  modify fun s => { s with
    enclosing := s.function :: s.enclosing
    function := { number := s.functions, lineDefined := line, firstLocal := s.declared.size }
    functions := s.functions + 1 }
  enterBlock false

def Function.prototype (f : Function) (source : Bytes) : Prototype :=
  { number := f.number
    source
    lineDefined := f.lineDefined
    lastLine := f.lastLine
    parameters := f.parameters
    isVararg := f.isVararg
    registers := f.registers
    code := f.code
    lines := f.lines
    constants := f.constants
    prototypes := f.prototypes
    upvalues := f.upvalues
    locals := f.locals }

/-- Ends the current function and goes back to the one around it. -/
def closeFunction : CompileM Prototype := do
  emitReturn 0 (some 0)
  leaveBlock
  let s ← get
  let done := s.function.prototype s.lexer.chunk
  match s.enclosing with
  | f :: rest => set { s with function := f, enclosing := rest }
  | [] => return done
  return done

end LuaHost.Guest.Compiler
