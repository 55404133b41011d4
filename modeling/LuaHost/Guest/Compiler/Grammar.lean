import LuaHost.Guest.Compiler.Scope
/-!
The grammar of the guest language. Every construct is read, checked and compiled in one pass, so the
first mistake in the source text is the one that is reported.
-/

namespace LuaHost.Guest.Compiler

/-- The constructs that contain themselves, as they are read one level further in. -/
structure Inner where
  /-- An expression of operators that bind tighter than a limit, and the operator after it. -/
  subexpression : Nat → CompileM (Expression × Option BinaryOp)
  statement : CompileM Unit

namespace Inner

variable (inner : Inner)

def expression : CompileM Expression := return (← inner.subexpression 0).1

/-! ### Expressions -/

def expressionList : CompileM (Nat × Expression) := do
  let first ← inner.expression
  iterate (1, first) fun (count, e) => do
    if ← accept (char ',') then
      let _ ← placeNext e
      return .inl (count + 1, ← inner.expression)
    else return .inr (count, e)

def field (table : Expression) : CompileM Expression := do
  let table ← placeAnyOrUpvalue table
  next
  let key ← stringExpression (← expectName)
  index table key

def bracketKey : CompileM Expression := do
  next
  let key ← toValue (← inner.expression)
  expect (char ']')
  return key

/-- The table being built: items read, items not yet stored, and the last item. -/
structure Construction where
  total : Nat := 0
  pending : Nat := 0
  last : Expression := {}

def storePending (base : Nat) (c : Construction) : CompileM Construction := do
  if c.last.isVoid then return c
  else
    let _ ← placeNext c.last
    let c := { c with last := {} }
    if c.pending == itemsPerStore then
      emitSetList base c.total (some c.pending)
      return { c with pending := 0 }
    else return c

def storeLast (base : Nat) (c : Construction) : CompileM Unit := do
  if c.pending == 0 then return
  else if c.last.isMultiple then
    setResults c.last none
    emitSetList base c.total none
  else
    if !c.last.isVoid then
      let _ ← placeNext c.last
    emitSetList base c.total (some c.pending)

def keyedField (base : Nat) : CompileM Unit := do
  let free ← freeRegister
  let key ← if ← isAt .name then stringExpression (← expectName) else inner.bracketKey
  expect (char '=')
  let (_, keyOperand) ← toOperand key
  let (_, operand) ← toOperand (← inner.expression)
  let _ ← emitABC .setTable base keyOperand operand
  setFreeRegister free

def positionalField (c : Construction) : CompileM Construction := do
  let e ← inner.expression
  return { total := c.total + 1, pending := c.pending + 1, last := e }

def constructorField (base : Nat) (c : Construction) : CompileM Construction := do
  match ← kind with
  | .name =>
    if (← lookAhead) == char '=' then
      inner.keyedField base
      return c
    else inner.positionalField c
  | k =>
    if k == char '[' then
      inner.keyedField base
      return c
    else inner.positionalField c

def tableConstructor : CompileM Expression := do
  let line ← currentLine
  let site ← emitABC .newTable 0 0 0
  let table ← placeNext { place := .relocatable site }
  let base := (heldRegister? table).getD 0
  expect (char '{')
  let c ← iterate (({} : Construction)) fun c => do
    if ← isAt (char '}') then return .inr c
    else
      let c ← storePending base c
      let c ← inner.constructorField base c
      if ← accept (char ',') then return .inl c
      else if ← accept (char ';') then return .inl c
      else return .inr c
  expectClosing (char '}') (char '{') line
  storeLast base c
  return table

def parameterList : CompileM Unit := do
  let (count, isVararg) ←
    if ← isAt (char ')') then pure (0, false)
    else
      iterate 0 fun (count : Nat) => do
        match ← kind with
        | .name =>
          declareLocal (← expectName)
          if ← accept (char ',') then return .inl (count + 1) else return .inr (count + 1, false)
        | .dots =>
          next
          return .inr (count, true)
        | _ => syntaxFailure (text "<name> or '...' expected")
  activateLocals count
  let parameters := (← getFunction).activeLocals
  modifyFunction fun f => { f with parameters, isVararg }
  reserve parameters

/-- Does the current token end a block? -/
def endsBlock (withUntil : Bool) : CompileM Bool := do
  match ← kind with
  | .else => return true
  | .elseif => return true
  | .end => return true
  | .eos => return true
  | .until => return withUntil
  | _ => return false

def statements : CompileM Unit :=
  iterate () fun _ => do
    if ← endsBlock true then return .inr ()
    else if ← isAt .return then
      inner.statement
      return .inr ()
    else
      inner.statement
      return .inl ()

def functionBody (isMethod : Bool) (line : Nat) : CompileM Expression := do
  openFunction line
  expect (char '(')
  if isMethod then
    declareLocal (text "self")
    activateLocals 1
  parameterList
  expect (char ')')
  inner.statements
  let last ← currentLine
  modifyFunction fun f => { f with lastLine := last }
  expectClosing .end .function line
  let done ← closeFunction
  let number := (← getFunction).prototypes.size
  modifyFunction fun f => { f with prototypes := f.prototypes.push done }
  placeNext { place := .relocatable (← emitABx .closure 0 number) }

def callArguments (function : Expression) (line : Nat) : CompileM Expression := do
  let base := (heldRegister? function).getD 0
  let arguments ← match ← kind with
    | .string => do
      let e ← stringExpression (← get).token.text
      next
      pure e
    | k =>
      if k == char '(' then
        next
        let e ← if ← isAt (char ')') then pure {} else do
          let (_, e) ← inner.expressionList
          if e.isMultiple then setResults e none
          pure e
        expectClosing (char ')') (char '(') line
        pure e
      else if k == char '{' then inner.tableConstructor
      else syntaxFailure (text "function arguments expected")
  let count ←
    if arguments.isMultiple then pure 0
    else do
      if !arguments.isVoid then
        let _ ← placeNext arguments
      pure ((← freeRegister) - (base + 1) + 1)
  let site ← emitABC .call base count 2
  fixLine line
  setFreeRegister (base + 1)
  return { place := .call site }

def primary : CompileM Expression := do
  match ← kind with
  | .name => variableExpression (← expectName)
  | k =>
    if k == char '(' then
      let line ← currentLine
      next
      let e ← inner.expression
      expectClosing (char ')') (char '(') line
      dischargeVariable e
    else syntaxFailure (text "unexpected symbol")

/-- A variable or call: a primary expression with fields, keys and arguments behind it. -/
def suffixed : CompileM Expression := do
  let line ← currentLine
  let e ← inner.primary
  iterate e fun e => do
    let k ← kind
    if k == char '.' then return .inl (← field e)
    else if k == char '[' then
      let e ← placeAnyOrUpvalue e
      let key ← inner.bracketKey
      return .inl (← index e key)
    else if k == char ':' then
      next
      let key ← stringExpression (← expectName)
      let e ← emitSelf e key
      return .inl (← inner.callArguments e line)
    else if k == char '(' || k == .string || k == char '{' then
      let e ← placeNext e
      return .inl (← inner.callArguments e line)
    else return .inr e

def simple : CompileM Expression := do
  let constant (place : Place) : CompileM Expression := do
    next
    return { place }
  match ← kind with
  | .float =>
    match (← get).token.number with
    | .float x => constant (.float x)
    | _ => constant .nil
  | .int =>
    match (← get).token.number with
    | .int n => constant (.int n)
    | _ => constant .nil
  | .string =>
    let e ← stringExpression (← get).token.text
    next
    return e
  | .nil => constant .nil
  | .true => constant .true
  | .false => constant .false
  | .dots =>
    require (← getFunction).isVararg "cannot use '...' outside a vararg function"
    let site ← emitABC .vararg 0 1 0
    constant (.vararg site)
  | .function =>
    next
    inner.functionBody false (← currentLine)
  | k => if k == char '{' then inner.tableConstructor else inner.suffixed

def unaryOp? (k : TokenKind) : Option UnaryOp :=
  if k == .not then some .not
  else if k == char '-' then some .minus
  else if k == char '~' then some .bnot
  else if k == char '#' then some .length
  else none

/-- How tightly a unary operator binds. -/
def unaryPriority : Nat := 12

def arithmeticMarks : List (TokenKind × ArithmeticOp) := [
  (char '+', .add), (char '-', .sub), (char '*', .mul), (char '%', .mod), (char '^', .pow),
  (char '/', .div), (.idiv, .idiv), (char '&', .band), (char '|', .bor), (char '~', .bxor),
  (.shl, .shl), (.shr, .shr)]

def otherMarks : List (TokenKind × BinaryOp) := [
  (.concat, .concat), (.ne, .ne), (.eq, .eq), (char '<', .lt), (.le, .le), (char '>', .gt),
  (.ge, .ge), (.and, .and), (.or, .or)]

def binaryOp? (k : TokenKind) : Option BinaryOp :=
  match arithmeticMarks.find? (·.1 == k) with
  | some (_, op) => some (.arithmetic op)
  | none => (otherMarks.find? (·.1 == k)).map (·.2)

/-- How tightly a binary operator binds what is left and what is right of it. -/
def priority : BinaryOp → Nat × Nat
  | .arithmetic op =>
    match op with
    | .add => (10, 10)
    | .sub => (10, 10)
    | .pow => (14, 13)
    | .band => (6, 6)
    | .bor => (4, 4)
    | .bxor => (5, 5)
    | .shl => (7, 7)
    | .shr => (7, 7)
    | _ => (11, 11)
  | .concat => (9, 8)
  | .and => (2, 2)
  | .or => (1, 1)
  | _ => (3, 3)

def subexpressionBody (limit : Nat) : CompileM (Expression × Option BinaryOp) := nested do
  let e ← match unaryOp? (← kind) with
    | some op => do
      let line ← currentLine
      next
      let (e, _) ← inner.subexpression unaryPriority
      applyUnary op e line
    | none => inner.simple
  iterate (e, binaryOp? (← kind)) fun (e, op?) => do
    match op? with
    | none => return .inr (e, none)
    | some op =>
      if (priority op).1 > limit then
        let line ← currentLine
        next
        let e ← beginBinary op e
        let (second, following) ← inner.subexpression (priority op).2
        return .inl (← finishBinary op e second line, following)
      else return .inr (e, some op)

/-! ### Statements -/

/-- Makes the number of values fit the number of variables. -/
def adjustAssignment (targets count : Nat) (e : Expression) : CompileM Unit := do
  if e.isMultiple then
    let extra := targets + 1 - count
    setResults e (some extra)
    if extra > 1 then reserve (extra - 1)
  else
    if !e.isVoid then
      let _ ← placeNext e
    if targets > count then
      let extra := targets - count
      let r ← freeRegister
      reserve extra
      emitNil r extra
  if count > targets then setFreeRegister ((← freeRegister) - (count - targets))

def block : CompileM Unit := do
  enterBlock false
  inner.statements
  leaveBlock

/-- Is the table of an earlier target the very variable that is assigned now? -/
def sharesTable (earlier target : Expression) : Bool :=
  match earlier.place, target.place with
  | .indexed t isUpvalue _, .localVar r => !isUpvalue && t == r
  | .indexed t isUpvalue _, .upvalue i => isUpvalue && t == i
  | _, _ => false

def sharesKey (earlier target : Expression) : Bool :=
  match earlier.place, target.place with
  | .indexed _ _ key, .localVar r => key == r
  | _, _ => false

def useCopy (copy : Nat) (target earlier : Expression) : Expression :=
  match earlier.place with
  | .indexed t isUpvalue key =>
    let key := if sharesKey earlier target then copy else key
    if sharesTable earlier target then { earlier with place := .indexed copy false key }
    else { earlier with place := .indexed t isUpvalue key }
  | _ => earlier

/-- Earlier targets that use the variable assigned now get a copy of it. -/
def protectTargets (earlier : List Expression) (target : Expression) : CompileM (List Expression) := do
  let copy ← freeRegister
  if earlier.any fun e => sharesTable e target || sharesKey e target then
    match target.place with
    | .localVar r =>
      let _ ← emitABC .move copy r 0
    | .upvalue i =>
      let _ ← emitABC .getUpval copy i 0
    | _ => pure ()
    reserve 1
    return earlier.map (useCopy copy target)
  else return earlier

def isVariable (e : Expression) : Bool :=
  match e.place with
  | .localVar _ => true
  | .upvalue _ => true
  | .indexed .. => true
  | _ => false

def requireVariable (e : Expression) : CompileM Unit := require (isVariable e) "syntax error"

/-- The targets of an assignment, the last one first. -/
def assignmentTargets (first : Expression) : CompileM (List Expression) := do
  requireVariable first
  iterate [first] fun targets => do
    if ← accept (char ',') then
      let e ← inner.suffixed
      let targets ← match e.place with
        | .indexed .. => pure targets
        | _ => protectTargets targets e
      checkLimit (targets.length + (← get).depth) maxDepth "JS levels"
      requireVariable e
      return .inl (e :: targets)
    else return .inr targets

def assignment (first : Expression) : CompileM Unit := do
  let targets ← inner.assignmentTargets first
  expect (char '=')
  let (count, e) ← inner.expressionList
  let storeTop (target : Expression) : CompileM Unit := do
    store target { place := .register ((← freeRegister) - 1) }
  if count == targets.length then
    match targets with
    | last :: others =>
      store last (← setOneResult e)
      for target in others do storeTop target
    | [] => return
  else
    adjustAssignment targets.length count e
    for target in targets do storeTop target

/-- A condition, as the jumps taken when it is false. -/
def condition : CompileM Int := do
  let e ← inner.expression
  let e := match e.place with
    | .nil => { e with place := .false }
    | _ => e
  return (← goIfTrue e).whenFalse

def gotoStatement (jump : Int) : CompileM Unit := do
  let line ← currentLine
  if ← accept .goto then addGoto (← expectName) line jump.toNat
  else
    next
    addGoto breakName line jump.toNat

def skipEmptyStatements : CompileM Unit :=
  iterate () fun _ => do
    let k ← kind
    if k == char ';' || k == .dbcolon then
      inner.statement
      return .inl ()
    else return .inr ()

def labelStatement (name : Bytes) (line : Nat) : CompileM Unit := do
  let opened ← currentBlock
  let known := (← get).labels
  match (known.extract opened.firstLabel known.size).find? (·.name == name) with
  | some earlier =>
    semanticFailure (text "label " ++ quotedBytes name
      ++ text (" already defined on line " ++ toString earlier.line))
  | none => pure ()
  expect .dbcolon
  let number := (← get).labels.size
  let label : Label := ⟨name, ← markTarget, line, (← getFunction).activeLocals⟩
  modify fun s => { s with labels := s.labels.push label }
  inner.skipEmptyStatements
  let label ←
    if ← endsBlock false then do
      let label := { label with activeLocals := (← currentBlock).activeLocals }
      modify fun s => { s with labels := s.labels.set! number label }
      pure label
    else pure label
  closeGotos label

def whileStatement (line : Nat) : CompileM Unit := do
  next
  let start ← markTarget
  let exit ← inner.condition
  enterBlock true
  expect .do
  inner.block
  patchList (← emitJump) start
  expectClosing .end .while line
  leaveBlock
  patchToHere exit

def repeatStatement (line : Nat) : CompileM Unit := do
  let start ← markTarget
  enterBlock true
  enterBlock false
  next
  inner.statements
  expectClosing .until .repeat line
  let exit ← inner.condition
  let scope ← currentBlock
  if scope.captured then patchClose exit scope.activeLocals
  leaveBlock
  patchList exit start
  leaveBlock

def loopValue : CompileM Unit := do
  let _ ← placeNext (← inner.expression)

def loopBody (base line declared : Nat) (isNumeric : Bool) : CompileM Unit := do
  activateLocals 3
  expect .do
  let start ← if isNumeric then do pure ((← emitABx .forPrep base noJump) : Int) else emitJump
  enterBlock false
  activateLocals declared
  reserve declared
  inner.block
  leaveBlock
  patchToHere start
  let back ←
    if isNumeric then emitABx .forLoop base noJump
    else do
      let _ ← emitABC .tforCall base 0 declared
      fixLine line
      emitABx .tforLoop (base + 2) noJump
  patchList back (start.toNat + 1)
  fixLine line

def numericFor (name : Bytes) (line : Nat) : CompileM Unit := do
  let base ← freeRegister
  declareLocal (text "(for index)")
  declareLocal (text "(for limit)")
  declareLocal (text "(for step)")
  declareLocal name
  expect (char '=')
  inner.loopValue
  expect (char ',')
  inner.loopValue
  if ← accept (char ',') then inner.loopValue
  else
    let _ ← emitConstant (← freeRegister) (← intConstant 1)
    reserve 1
  inner.loopBody base line 1 true

def genericFor (name : Bytes) : CompileM Unit := do
  let base ← freeRegister
  declareLocal (text "(for generator)")
  declareLocal (text "(for state)")
  declareLocal (text "(for control)")
  declareLocal name
  let count ← iterate 1 fun (count : Nat) => do
    if ← accept (char ',') then
      declareLocal (← expectName)
      return .inl (count + 1)
    else return .inr count
  expect .in
  let line ← currentLine
  let (values, e) ← inner.expressionList
  adjustAssignment 3 values e
  checkRegisters 3
  inner.loopBody base line count false

def forStatement (line : Nat) : CompileM Unit := do
  enterBlock true
  next
  let name ← expectName
  let k ← kind
  if k == char '=' then inner.numericFor name line
  else if k == char ',' || k == .in then inner.genericFor name
  else syntaxFailure (text "'=' or 'in' expected")
  expectClosing .end .for line
  leaveBlock

/-- One condition with its block; the result is the list of jumps behind the whole statement. -/
def conditionalBlock (escapes : Int) : CompileM Int := do
  next
  let e ← inner.expression
  expect .then
  let k ← kind
  let endClause (skip : Int) : CompileM Int := do
    inner.statements
    leaveBlock
    let k ← kind
    let escapes ← if k == .else || k == .elseif then joinJumps escapes (← emitJump) else pure escapes
    patchToHere skip
    return escapes
  if k == .goto || k == .break then
    let e ← goIfFalse e
    enterBlock false
    gotoStatement e.whenTrue
    inner.skipEmptyStatements
    if ← endsBlock false then
      leaveBlock
      return escapes
    else endClause (← emitJump)
  else
    let e ← goIfTrue e
    enterBlock false
    endClause e.whenFalse

def ifStatement (line : Nat) : CompileM Unit := do
  let escapes ← inner.conditionalBlock noJump
  let escapes ← iterate escapes fun escapes => do
    if ← isAt .elseif then return .inl (← inner.conditionalBlock escapes) else return .inr escapes
  if ← accept .else then inner.block
  expectClosing .end .if line
  patchToHere escapes

def localFunction : CompileM Unit := do
  declareLocal (← expectName)
  activateLocals 1
  let e ← inner.functionBody false (← currentLine)
  setLocalStart ((heldRegister? e).getD 0) (← pc)

def localStatement : CompileM Unit := do
  let names ← iterate 0 fun (count : Nat) => do
    declareLocal (← expectName)
    if ← accept (char ',') then return .inl (count + 1) else return .inr (count + 1)
  let (count, e) ← if ← accept (char '=') then inner.expressionList else pure (0, {})
  adjustAssignment names count e
  activateLocals names

def functionStatement (line : Nat) : CompileM Unit := do
  next
  let e ← variableExpression (← expectName)
  let e ← iterate e fun e => do
    if ← isAt (char '.') then return .inl (← field e) else return .inr e
  let isMethod ← isAt (char ':')
  let e ← if isMethod then field e else pure e
  let body ← inner.functionBody isMethod line
  store e body
  fixLine line

def expressionStatement : CompileM Unit := do
  let e ← inner.suffixed
  let k ← kind
  if k == char '=' || k == char ',' then inner.assignment e
  else
    match e.place with
    | .call site => modifyInstruction site fun i => { i with c := 1 }
    | _ => require false "syntax error"

def returnStatement : CompileM Unit := do
  let active := (← getFunction).activeLocals
  let ends ← do
    if ← endsBlock true then pure true else isAt (char ';')
  if ends then emitReturn 0 (some 0)
  else
    let (count, e) ← inner.expressionList
    if e.isMultiple then
      setResults e none
      match e.place with
      | .call site =>
        if count == 1 then modifyInstruction site fun i => { i with op := .tailCall }
      | _ => pure ()
      emitReturn active none
    else if count == 1 then
      let (_, r) ← placeAny e
      emitReturn r (some 1)
    else
      let _ ← placeNext e
      emitReturn active (some count)
  let _ ← accept (char ';')

def statementBody : CompileM Unit := nested do
  let line ← currentLine
  match ← kind with
  | .if => inner.ifStatement line
  | .while => inner.whileStatement line
  | .do =>
    next
    inner.block
    expectClosing .end .do line
  | .for => inner.forStatement line
  | .repeat => inner.repeatStatement line
  | .function => inner.functionStatement line
  | .local =>
    next
    if ← accept .function then inner.localFunction else inner.localStatement
  | .dbcolon =>
    next
    inner.labelStatement (← expectName) line
  | .return =>
    next
    inner.returnStatement
  | .break => gotoStatement (← emitJump)
  | .goto => gotoStatement (← emitJump)
  | k => if k == char ';' then next else inner.expressionStatement
  setFreeRegister (← getFunction).activeLocals

/-- The constructs as they may be nested in each other up to a depth. -/
def upTo : Nat → Inner
  | 0 => { subexpression := fun _ => throw ⟨ByteArray.empty⟩, statement := throw ⟨ByteArray.empty⟩ }
  | n + 1 =>
    { subexpression := fun limit => (upTo n).subexpressionBody limit
      statement := (upTo n).statementBody }

end Inner

/-- Compiles a chunk, whose shown name may stand in messages, at a depth of calls around it. -/
def compile (source chunk : Bytes) (depth : Nat) : Except CompileError Prototype :=
  let initial : State :=
    { lexer := { source, chunk }, function := { lineDefined := 0 }, depth }
  let whole : CompileM Prototype := do
    enterBlock false
    modifyFunction fun f =>
      { f with isVararg := true, upvalues := #[⟨environmentName, true, 0⟩] }
    next
    (Inner.upTo (maxDepth + 2)).statements
    check .eos
    closeFunction
  match whole initial with
  | .ok p _ => .ok p
  | .error e _ => .error e

end LuaHost.Guest.Compiler
