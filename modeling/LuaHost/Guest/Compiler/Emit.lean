import LuaHost.Guest.Compiler.State
import LuaHost.Guest.Arithmetic
/-!
Emits instructions: registers, constants, jumps that are patched once their target is known, and
expressions that are put into a register as late as possible. Each instruction remembers the line of
the last token used up.
-/

namespace LuaHost.Guest.Compiler

def pc : CompileM Nat := return (← getFunction).code.size

/-- Operand of a test whose register is still open. -/
def noRegister : Nat := 255

def instructionAt (site : Nat) : CompileM Instruction := do
  return ((← getFunction).code[site]?).getD default

def modifyInstruction (site : Nat) (f : Instruction → Instruction) : CompileM Unit :=
  modifyFunction fun s => { s with code := s.code.modify site f }

/-- The jump after this one in its list. -/
def nextJump (site : Nat) : CompileM Int := do
  let i ← instructionAt site
  return if i.bx == noJump then noJump else (site : Int) + 1 + i.bx

def setTarget (site : Nat) (target : Int) : CompileM Unit :=
  modifyInstruction site fun i => { i with bx := target - ((site : Int) + 1) }

def isTest (op : Opcode) : Bool :=
  op == .eq || op == .lt || op == .le || op == .test || op == .testSet

/-- The instruction that decides whether a jump is taken: the test before it, or the jump itself. -/
def controller (site : Nat) : CompileM Nat := do
  if site ≥ 1 && isTest (← instructionAt (site - 1)).op then return site - 1 else return site

/-- Makes a value-producing test store into `register`, or only test if there is none. -/
def patchTest (site register : Nat) : CompileM Bool := do
  let site ← controller site
  let i ← instructionAt site
  if i.op != .testSet then return Bool.false
  else
    if register != noRegister && register != i.b then
      modifyInstruction site fun i => { i with a := register }
    else
      modifyInstruction site fun i => { op := .test, a := i.b, b := 0, c := i.c }
    return Bool.true

/-- Walks along a list of jumps. -/
def forJumps (list : Int) (body : Nat → CompileM Unit) : CompileM Unit := do
  loop (fun (j : Int) => do
    if j == noJump then return .inr ()
    else
      let following ← nextJump j.toNat
      body j.toNat
      return .inl following) ((← pc) + 2) list

/-- Sends jumps that leave a value in `register` to one place and the others to another. -/
def patchListTo (list : Int) (valueTarget register defaultTarget : Nat) : CompileM Unit :=
  forJumps list fun j => do
    if ← patchTest j register then setTarget j valueTarget else setTarget j defaultTarget

def dischargePending : CompileM Unit := do
  let pending := (← getFunction).pendingJumps
  modifyFunction fun f => { f with pendingJumps := noJump }
  let here ← pc
  patchListTo pending here noRegister here

def emit (i : Instruction) : CompileM Nat := do
  dischargePending
  let line := (← get).lastLine
  let here ← pc
  modifyFunction fun f => { f with code := f.code.push i, lines := f.lines.push line }
  return here

def emitABC (op : Opcode) (a b c : Nat) : CompileM Nat := emit { op, a, b, c }

def emitABx (op : Opcode) (a : Nat) (bx : Int) : CompileM Nat := emit { op, a, bx }

/-- Moves the last instruction to another line. -/
def fixLine (line : Nat) : CompileM Unit :=
  modifyFunction fun f => { f with lines := f.lines.set! (f.code.size - 1) line }

def emitConstant (register index : Nat) : CompileM Nat := emitABx .loadK register index

/-- Appends the second list of jumps to the first. -/
def joinJumps (first second : Int) : CompileM Int := do
  if second == noJump then return first
  else if first == noJump then return second
  else
    let last ← loop (fun (j : Int) => do
      let following ← nextJump j.toNat
      if following == noJump then return .inr j else return .inl following) ((← pc) + 2) first
    setTarget last.toNat second
    return first

/-- Marks the current position as the target of a jump. -/
def markTarget : CompileM Nat := do
  let here ← pc
  modifyFunction fun f => { f with lastTarget := here }
  return here

def emitJump : CompileM Int := do
  let pending := (← getFunction).pendingJumps
  modifyFunction fun f => { f with pendingJumps := noJump }
  let j ← emit { op := .jmp, bx := noJump }
  joinJumps j pending

def patchToHere (list : Int) : CompileM Unit := do
  let _ ← markTarget
  let joined ← joinJumps (← getFunction).pendingJumps list
  modifyFunction fun f => { f with pendingJumps := joined }

def patchList (list : Int) (target : Nat) : CompileM Unit := do
  if target == (← pc) then patchToHere list
  else patchListTo list target noRegister target

/-- Makes jumps close the captured variables from a register on. -/
def patchClose (list : Int) (level : Nat) : CompileM Unit :=
  forJumps list fun j => modifyInstruction j fun i => { i with a := level + 1 }

def emitConditionalJump (op : Opcode) (a b c : Nat) : CompileM Int := do
  let _ ← emitABC op a b c
  emitJump

def emitReturn (first : Nat) (count : Option Nat) : CompileM Unit := do
  let _ ← emitABC .ret first (match count with | some n => n + 1 | none => 0) 0

/-- Sets registers to nil; joins an assignment just before it if no jump comes between. -/
def emitNil (start count : Nat) : CompileM Unit := do
  let f ← getFunction
  let here := f.code.size
  let last := start + count - 1
  let previous ← instructionAt (here - 1)
  if here > f.lastTarget && here ≥ 1 && previous.op == .loadNil
      && ((previous.a ≤ start && start ≤ previous.a + previous.b + 1)
        || (start ≤ previous.a && previous.a ≤ last + 1)) then
    let start := min start previous.a
    let last := max last (previous.a + previous.b)
    modifyInstruction (here - 1) fun i => { i with a := start, b := last - start }
  else
    let _ ← emitABC .loadNil start (count - 1) 0

/-! ### Registers -/

/-- Registers a function may use, less a reserve. -/
def maxRegisters : Nat := 255

def checkRegisters (count : Nat) : CompileM Unit := do
  let f ← getFunction
  let needed := f.freeRegister + count
  if needed > f.registers then
    if needed ≥ maxRegisters then
      syntaxFailure (text "function or expression needs too many registers")
    modifyFunction fun f => { f with registers := needed }

def reserve (count : Nat) : CompileM Unit := do
  checkRegisters count
  modifyFunction fun f => { f with freeRegister := f.freeRegister + count }

def setFreeRegister (r : Nat) : CompileM Unit :=
  modifyFunction fun f => { f with freeRegister := r }

def freeRegister : CompileM Nat := return (← getFunction).freeRegister

/-- Gives a register back unless it holds a constant's number or a local variable. -/
def release (r : Nat) : CompileM Unit := do
  let f ← getFunction
  if !isConstant r && r ≥ f.activeLocals then setFreeRegister (f.freeRegister - 1)

def releaseExpression (e : Expression) : CompileM Unit := do
  match e.place with
  | .register r => release r
  | _ => return

def heldRegister? (e : Expression) : Option Nat :=
  match e.place with
  | .register r => some r
  | _ => none

/-- Gives the registers of two expressions back, the higher one first. -/
def releaseBoth (first second : Expression) : CompileM Unit := do
  match heldRegister? first, heldRegister? second with
  | some a, some b =>
    if a > b then
      release a
      release b
    else
      release b
      release a
  | some a, none => release a
  | none, some b => release b
  | none, none => return

/-! ### Constants -/

def addConstant (key : ConstantKey) (v : Value) : CompileM Nat := do
  let f ← getFunction
  match f.constantIndex[key]? with
  | some i => return i
  | none =>
    let i := f.constants.size
    modifyFunction fun f =>
      { f with constants := f.constants.push v, constantIndex := f.constantIndex.insert key i }
    return i

def stringConstant (s : Bytes) : CompileM Nat := addConstant (.string s) (.string s)

def intConstant (n : Int32) : CompileM Nat := addConstant (.int n) (.int n)

def floatConstant (x : Float) : CompileM Nat := addConstant (.float x.toBits) (.float x)

def boolConstant (b : Bool) : CompileM Nat := addConstant (.bool b) (.bool b)

def nilConstant : CompileM Nat := addConstant .nil .nil

def stringExpression (s : Bytes) : CompileM Expression :=
  return { place := .constant (← stringConstant s) }

/-! ### Putting expressions somewhere -/

/-- Fixes the number of results of a call or vararg; `none` keeps all of them. -/
def setResults (e : Expression) (count : Option Nat) : CompileM Unit := do
  let operand := match count with | some n => n + 1 | none => 0
  match e.place with
  | .call site => modifyInstruction site fun i => { i with c := operand }
  | .vararg site =>
    let r ← freeRegister
    modifyInstruction site fun i => { i with b := operand, a := r }
    reserve 1
  | _ => return

def setOneResult (e : Expression) : CompileM Expression := do
  match e.place with
  | .call site => return { e with place := .register (← instructionAt site).a }
  | .vararg site =>
    modifyInstruction site fun i => { i with b := 2 }
    return { e with place := .relocatable site }
  | _ => return e

/-- Turns a variable into the value it holds. -/
def dischargeVariable (e : Expression) : CompileM Expression := do
  match e.place with
  | .localVar r => return { e with place := .register r }
  | .upvalue i => return { e with place := .relocatable (← emitABC .getUpval 0 i 0) }
  | .indexed table isUpvalue key =>
    release key
    if !isUpvalue then release table
    let op := if isUpvalue then Opcode.getTabUp else .getTable
    return { e with place := .relocatable (← emitABC op 0 table key) }
  | .call _ => setOneResult e
  | .vararg _ => setOneResult e
  | _ => return e

def dischargeTo (e : Expression) (r : Nat) : CompileM Expression := do
  let e ← dischargeVariable e
  let here : Expression := { e with place := .register r }
  match e.place with
  | .nil =>
    emitNil r 1
    return here
  | .false =>
    let _ ← emitABC .loadBool r 0 0
    return here
  | .true =>
    let _ ← emitABC .loadBool r 1 0
    return here
  | .constant i =>
    let _ ← emitConstant r i
    return here
  | .float x =>
    let _ ← emitConstant r (← floatConstant x)
    return here
  | .int n =>
    let _ ← emitConstant r (← intConstant n)
    return here
  | .relocatable site =>
    modifyInstruction site fun i => { i with a := r }
    return here
  | .register s =>
    if s != r then
      let _ ← emitABC .move r s 0
    return here
  | _ => return e

def dischargeToAny (e : Expression) : CompileM Expression := do
  match e.place with
  | .register _ => return e
  | _ =>
    reserve 1
    dischargeTo e ((← freeRegister) - 1)

def emitLoadBool (r : Nat) (b : Bool) (skip : Nat) : CompileM Nat := do
  let _ ← markTarget
  emitABC .loadBool r (if b then 1 else 0) skip

/-- Does any jump of the list leave no value behind? -/
def needsValue (list : Int) : CompileM Bool := do
  loop (fun (j : Int) => do
    if j == noJump then return .inr Bool.false
    else
      let i ← instructionAt (← controller j.toNat)
      if i.op != .testSet then return .inr Bool.true else return .inl (← nextJump j.toNat))
    ((← pc) + 2) list

def placeIn (e : Expression) (r : Nat) : CompileM Expression := do
  let e ← dischargeTo e r
  let e ← match e.place with
    | .jump site => do pure { e with whenTrue := ← joinJumps e.whenTrue site }
    | _ => pure e
  if e.hasJumps then
    let needs ← do
      if ← needsValue e.whenTrue then pure Bool.true else needsValue e.whenFalse
    let (falseAt, trueAt) ← do
      if needs then
        let past ← match e.place with
          | .jump _ => pure noJump
          | _ => emitJump
        let falseAt ← emitLoadBool r Bool.false 1
        let trueAt ← emitLoadBool r Bool.true 0
        patchToHere past
        pure (falseAt, trueAt)
      else pure (0, 0)
    let final ← markTarget
    patchListTo e.whenFalse final r falseAt
    patchListTo e.whenTrue final r trueAt
  return { place := .register r }

/-- Puts an expression into the next free register. -/
def placeNext (e : Expression) : CompileM Expression := do
  let e ← dischargeVariable e
  releaseExpression e
  reserve 1
  placeIn e ((← freeRegister) - 1)

/-- Puts an expression into any register, the one it is in if possible. -/
def placeAny (e : Expression) : CompileM (Expression × Nat) := do
  let e ← dischargeVariable e
  match e.place with
  | .register r =>
    if !e.hasJumps then return (e, r)
    else if r ≥ (← getFunction).activeLocals then return (← placeIn e r, r)
    else
      let e ← placeNext e
      return (e, (heldRegister? e).getD 0)
  | _ =>
    let e ← placeNext e
    return (e, (heldRegister? e).getD 0)

def placeAnyOrUpvalue (e : Expression) : CompileM Expression := do
  match e.place with
  | .upvalue _ => if e.hasJumps then return (← placeAny e).1 else return e
  | _ => return (← placeAny e).1

def toValue (e : Expression) : CompileM Expression := do
  if e.hasJumps then return (← placeAny e).1 else dischargeVariable e

/-- The largest index of a constant that fits an operand. -/
def maxConstantOperand : Nat := 255

/-- Puts an expression where an operand can name it: a constant if possible, else a register. -/
def toOperand (e : Expression) : CompileM (Expression × Nat) := do
  let e ← toValue e
  let index ← match e.place with
    | .true => some <$> boolConstant Bool.true
    | .false => some <$> boolConstant Bool.false
    | .nil => some <$> nilConstant
    | .int n => some <$> intConstant n
    | .float x => some <$> floatConstant x
    | .constant i => pure (some i)
    | _ => pure none
  match index with
  | some i =>
    let e := { e with place := .constant i }
    if i ≤ maxConstantOperand then return (e, constantBase + i) else placeAny e
  | none => placeAny e

def store (target e : Expression) : CompileM Unit := do
  match target.place with
  | .localVar r =>
    releaseExpression e
    let _ ← placeIn e r
  | .upvalue i =>
    let (e, r) ← placeAny e
    let _ ← emitABC .setUpval r i 0
    releaseExpression e
  | .indexed table isUpvalue key =>
    let (e, operand) ← toOperand e
    let _ ← emitABC (if isUpvalue then .setTabUp else .setTable) table key operand
    releaseExpression e
  | _ => return

/-- Prepares the call of a method: the function and the object in two registers. -/
def emitSelf (object key : Expression) : CompileM Expression := do
  let (object, source) ← placeAny object
  releaseExpression object
  let base ← freeRegister
  reserve 2
  let (key, operand) ← toOperand key
  let _ ← emitABC .self base source operand
  releaseExpression key
  return { object with place := .register base }

def index (table key : Expression) : CompileM Expression := do
  let (_, operand) ← toOperand key
  match table.place with
  | .upvalue i => return { table with place := .indexed i Bool.true operand }
  | .register r => return { table with place := .indexed r Bool.false operand }
  | .localVar r => return { table with place := .indexed r Bool.false operand }
  | _ => return table

/-! ### Conditions -/

def negateCondition (site : Nat) : CompileM Unit := do
  modifyInstruction (← controller site) fun i => { i with a := if i.a == 0 then 1 else 0 }

/-- Jumps if the expression has the truth value `condition`. -/
def jumpOn (e : Expression) (condition : Bool) : CompileM Int := do
  let flag (b : Bool) := if b then 1 else 0
  let plain : CompileM Int := do
    let e ← dischargeToAny e
    releaseExpression e
    emitConditionalJump .testSet noRegister ((heldRegister? e).getD 0) (flag condition)
  match e.place with
  | .relocatable site =>
    let i ← instructionAt site
    if i.op == .not then
      modifyFunction fun f => { f with code := f.code.pop, lines := f.lines.pop }
      emitConditionalJump .test i.b 0 (flag (!condition))
    else plain
  | _ => plain

/-- Goes on if the expression is true. -/
def goIfTrue (e : Expression) : CompileM Expression := do
  let e ← dischargeVariable e
  let jump ← match e.place with
    | .jump site =>
      negateCondition site
      pure (site : Int)
    | .constant _ => pure noJump
    | .float _ => pure noJump
    | .int _ => pure noJump
    | .true => pure noJump
    | _ => jumpOn e Bool.false
  let whenFalse ← joinJumps e.whenFalse jump
  patchToHere e.whenTrue
  return { e with whenFalse, whenTrue := noJump }

/-- Goes on if the expression is false. -/
def goIfFalse (e : Expression) : CompileM Expression := do
  let e ← dischargeVariable e
  let jump ← match e.place with
    | .jump site => pure (site : Int)
    | .nil => pure noJump
    | .false => pure noJump
    | _ => jumpOn e Bool.true
  let whenTrue ← joinJumps e.whenTrue jump
  patchToHere e.whenFalse
  return { e with whenTrue, whenFalse := noJump }

def removeValues (list : Int) : CompileM Unit :=
  forJumps list fun j => do
    let _ ← patchTest j noRegister

def emitNot (e : Expression) : CompileM Expression := do
  let e ← dischargeVariable e
  let negated (e : Expression) : CompileM Expression := do
    let e ← dischargeToAny e
    releaseExpression e
    return { e with place := .relocatable (← emitABC .not 0 ((heldRegister? e).getD 0) 0) }
  let e ← match e.place with
    | .nil => pure { e with place := .true }
    | .false => pure { e with place := .true }
    | .constant _ => pure { e with place := .false }
    | .float _ => pure { e with place := .false }
    | .int _ => pure { e with place := .false }
    | .true => pure { e with place := .false }
    | .jump site =>
      negateCondition site
      pure e
    | .relocatable _ => negated e
    | .register _ => negated e
    | _ => pure e
  let e := { e with whenTrue := e.whenFalse, whenFalse := e.whenTrue }
  removeValues e.whenFalse
  removeValues e.whenTrue
  return e

/-! ### Operators -/

inductive UnaryOp where
  | minus | bnot | not | length
  deriving DecidableEq, Repr

inductive BinaryOp where
  | arithmetic (op : ArithmeticOp)
  | concat
  | eq | lt | le | ne | gt | ge
  | and | or
  deriving DecidableEq, Repr

def ofArithmetic : ArithmeticOp → Opcode
  | .add => .add
  | .sub => .sub
  | .mul => .mul
  | .mod => .mod
  | .pow => .pow
  | .div => .div
  | .idiv => .idiv
  | .band => .band
  | .bor => .bor
  | .bxor => .bxor
  | .shl => .shl
  | .shr => .shr
  | .unm => .unm
  | .bnot => .bnot

def numeral? (e : Expression) : Option Value :=
  if e.hasJumps then none
  else
    match e.place with
    | .int n => some (.int n)
    | .float x => some (.float x)
    | _ => none

/-- Can an operation on two numerals be done ahead of time? -/
def foldable (op : ArithmeticOp) (a b : Value) : Bool :=
  if op.isBitwise then (toInteger? a).isSome && (toInteger? b).isSome
  else
    match op with
    | .div => (toFloat? b).any (· != 0.0)
    | .idiv => (toFloat? b).any (· != 0.0)
    | .mod => (toFloat? b).any (· != 0.0)
    | _ => Bool.true

/-- Does an operation on numerals ahead of time, unless it fails or gives NaN or a zero float. -/
def fold? (op : ArithmeticOp) (a b : Expression) : Option Expression :=
  match numeral? a, numeral? b with
  | some x, some y =>
    if foldable op x y then
      match arithmetic op x y with
      | .value (.int n) => some { a with place := .int n }
      | .value (.float z) => if z.isNaN || z == 0.0 then none else some { a with place := .float z }
      | _ => none
    else none
  | _, _ => none

def emitUnary (op : Opcode) (e : Expression) (line : Nat) : CompileM Expression := do
  let (e, r) ← placeAny e
  releaseExpression e
  let site ← emitABC op 0 r 0
  fixLine line
  return { e with place := .relocatable site }

def emitBinary (op : Opcode) (a b : Expression) (line : Nat) : CompileM Expression := do
  let (b, second) ← toOperand b
  let (a, first) ← toOperand a
  releaseBoth a b
  let site ← emitABC op 0 first second
  fixLine line
  return { a with place := .relocatable site }

def emitComparison (op : BinaryOp) (a b : Expression) : CompileM Expression := do
  let first := match a.place with
    | .constant i => constantBase + i
    | _ => (heldRegister? a).getD 0
  let (b, second) ← toOperand b
  releaseBoth a b
  let jump ← match op with
    | .ne => emitConditionalJump .eq 0 first second
    | .gt => emitConditionalJump .lt 1 second first
    | .ge => emitConditionalJump .le 1 second first
    | .lt => emitConditionalJump .lt 1 first second
    | .le => emitConditionalJump .le 1 first second
    | _ => emitConditionalJump .eq 1 first second
  return { a with place := .jump jump.toNat }

def applyUnary (op : UnaryOp) (e : Expression) (line : Nat) : CompileM Expression := do
  let zero : Expression := { place := .int 0 }
  match op with
  | .minus =>
    match fold? .unm e zero with
    | some e => return e
    | none => emitUnary .unm e line
  | .bnot =>
    match fold? .bnot e zero with
    | some e => return e
    | none => emitUnary .bnot e line
  | .length => emitUnary .len e line
  | .not => emitNot e

/-- Prepares the first operand before the second one is read. -/
def beginBinary (op : BinaryOp) (e : Expression) : CompileM Expression := do
  match op with
  | .and => goIfTrue e
  | .or => goIfFalse e
  | .concat => placeNext e
  | .arithmetic _ => if (numeral? e).isSome then return e else return (← toOperand e).1
  | _ => return (← toOperand e).1

def finishBinary (op : BinaryOp) (a b : Expression) (line : Nat) : CompileM Expression := do
  match op with
  | .and =>
    let b ← dischargeVariable b
    return { b with whenFalse := ← joinJumps b.whenFalse a.whenFalse }
  | .or =>
    let b ← dischargeVariable b
    return { b with whenTrue := ← joinJumps b.whenTrue a.whenTrue }
  | .concat =>
    let b ← toValue b
    let joined? ← match b.place with
      | .relocatable site => do
        let i ← instructionAt site
        pure (if i.op == .concat then some site else none)
      | _ => pure none
    match joined? with
    | some site =>
      releaseExpression a
      let first := (heldRegister? a).getD 0
      modifyInstruction site fun i => { i with b := first }
      return { a with place := .relocatable site }
    | none =>
      let b ← placeNext b
      emitBinary .concat a b line
  | .arithmetic op =>
    match fold? op a b with
    | some e => return e
    | none => emitBinary (ofArithmetic op) a b line
  | op => emitComparison op a b

/-- Items stored into a table at once. -/
def itemsPerStore : Nat := 50

/-- Stores the last `count` items, or all there are; `total` items have been read so far. -/
def emitSetList (base total : Nat) (count : Option Nat) : CompileM Unit := do
  let _ ← emitABC .setList base (count.getD 0) ((total - 1) / itemsPerStore + 1)
  setFreeRegister (base + 1)

end LuaHost.Guest.Compiler
