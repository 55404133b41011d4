import LuaHost.Guest.Call
import LuaHost.Guest.Compiler.Grammar
/-!
One step of the machine: an instruction of the active function, or one request of the active library
function. Where guest code has to be called on the way, the step ends and the result is taken up when
the call returns.
-/

namespace LuaHost.Guest.Machine

/-! ### Instructions -/

variable (m : Machine) (a : Activation)

def reg (r : Nat) : Value := m.peek (a.base + r)

/-- The value of an operand: a register or a constant. -/
def operand (n : Nat) : Value :=
  if isConstant n then a.prototype.constants.getD (n - constantBase) .nil else m.reg a n

def setReg (r : Nat) (v : Value) : Machine := m.put (a.base + r) v

/-- Goes on at a distance from the next instruction. -/
def jump (distance : Int) : Machine :=
  { m with frame := .compiled { a with pc := ((a.pc : Int) + distance).toNat } }

/-- Skips the next instruction unless `condition` holds. -/
def skipUnless (condition : Bool) : Machine := if condition then m else m.jump a 1

def nameOf (n : Nat) : Option Naming.Named :=
  if isConstant n then none else Naming.ofRegister? a.prototype n a.current

def upvalueNamed (n : Nat) : Option Naming.Named :=
  some ("upvalue", Naming.upvalueName a.prototype n)

def indexInto (object : Value) (name : Option Naming.Named) (key : Value) (target : Nat) : Machine :=
  match m.store.read object key with
  | .value v => m.setReg a target v
  | .metamethod f o => m.callMeta a f [o, key] (.register target)
  | .notIndexable v first => m.failTyped v (if first then name else none) "index"
  | .slot _ => m
  | .loop => m.fail (Text.encode Store.indexLoopMessage)

def storeInto (object : Value) (name : Option Naming.Named) (key value : Value) : Machine :=
  match m.store.write object key with
  | .slot t =>
    match Store.keyProblem? key with
    | some problem => m.fail (Text.encode problem)
    | none => { m with store := m.store.modifyTable t fun t => t.set key value }
  | .metamethod f o => m.callMeta a f [o, key, value] .nothing
  | .notIndexable v first => m.failTyped v (if first then name else none) "index"
  | .value _ => m
  | .loop => m.fail (Text.encode Store.newIndexLoopMessage)

/-- The metamethod of an operation on two values: the first one's, or else the second one's. -/
def binaryHandler (x y event : Value) : Value :=
  let first := m.store.metafield x event
  if first.isNil then m.store.metafield y event else first

/-- The failure of arithmetic on values that are no numbers, or not whole where they should be. -/
def arithmeticFailure (op : ArithmeticOp) (x y : Value) (i j : Nat) : Machine :=
  if op.isBitwise && (toFloat? x).isSome && (toFloat? y).isSome then
    let blamed := if (toInteger? x).isNone then i else j
    m.fail (Text.encode "number" ++ Naming.note (nameOf a blamed)
      ++ Text.encode " has no integer representation")
  else
    let (v, blamed) := if (toFloat? x).isNone then (x, i) else (y, j)
    m.failTyped v (nameOf a blamed)
      (if op.isBitwise then "perform bitwise operation on" else "perform arithmetic on")

def arithmeticStep (op : ArithmeticOp) (target i j : Nat) : Machine :=
  let x := m.operand a i
  let y := m.operand a j
  match arithmetic op x y with
  | .value v => m.setReg a target v
  | .error e => m.fail (Text.encode e.message)
  | .unsuitable =>
    let handler := m.binaryHandler x y (ofText op.event)
    if handler.isNil then m.arithmeticFailure a op x y i j
    else m.callMeta a handler [x, y] (.register target)

def lengthStep (target source : Nat) : Machine :=
  let v := m.reg a source
  match v with
  | .string s => m.setReg a target (.int (Int32.ofNat s.size))
  | _ =>
    let handler := m.store.metafield v Event.len
    if !handler.isNil then m.callMeta a handler [v, v] (.register target)
    else
      match v with
      | .table t => m.setReg a target (.int (Int32.ofNat (m.store.table t).length))
      | _ => m.failTyped v (nameOf a source) "get length of"

/-- Only two tables, or two userdata, ask a metamethod whether they are equal. -/
def asksForEquality (x y : Value) : Bool :=
  match x, y with
  | .table i, .table j => i != j
  | .userdata i, .userdata j => i != j
  | _, _ => false

def equalStep (expected : Bool) (x y : Value) : Machine :=
  let handler := if asksForEquality x y then m.binaryHandler x y Event.eq else .nil
  if handler.isNil then m.skipUnless a (x.rawEquals y == expected)
  else m.callMeta a handler [x, y] (.test expected)

def orderFailure (x y : Value) : Machine :=
  let first := m.store.typeName x
  let second := m.store.typeName y
  m.fail (Text.encode "attempt to compare " ++
    (if first == second then Text.encode "two " ++ first ++ Text.encode " values"
    else first ++ Text.encode " with " ++ second))

def lessStep (expected : Bool) (x y : Value) : Machine :=
  match lessThan? x y with
  | some r => m.skipUnless a (r == expected)
  | none =>
    let handler := m.binaryHandler x y Event.lt
    if handler.isNil then m.orderFailure x y else m.callMeta a handler [x, y] (.test expected)

/-- Without a metamethod for `x ≤ y`, the one for `y < x` is asked and its answer negated. -/
def lessEqualStep (expected : Bool) (x y : Value) : Machine :=
  match lessEqual? x y with
  | some r => m.skipUnless a (r == expected)
  | none =>
    let handler := m.binaryHandler x y Event.le
    if !handler.isNil then m.callMeta a handler [x, y] (.test expected)
    else
      let handler := m.binaryHandler y x Event.lt
      if handler.isNil then m.orderFailure x y
      else m.callMeta a handler [y, x] (.test !expected)

/-! ### Loops -/

/-- The integer limit of a loop with an integer step, and whether the loop is not run at all. -/
def integerLimit? (limit : Value) (step : Int32) : Option (Int32 × Bool) :=
  match toInteger? limit with
  | some n => some (n, false)
  | none =>
    match toFloat? limit with
    | none => none
    | some x =>
      let bound := if step < 0 then x.ceil else x.floor
      match integerOfFloat? bound with
      | some n => some (n, false)
      | none =>
        if x > 0.0 then some (Int32.ofInt int32Max, step < 0)
        else some (Int32.ofInt int32Min, step ≥ 0)

def prepareLoop (i : Instruction) : Machine :=
  let first := m.reg a i.a
  let limit := m.reg a (i.a + 1)
  let step := m.reg a (i.a + 2)
  let floats (_ : Unit) : Machine :=
    match toFloat? limit, toFloat? step, toFloat? first with
    | none, _, _ => m.fail (Text.encode "'for' limit must be a number")
    | _, none, _ => m.fail (Text.encode "'for' step must be a number")
    | _, _, none => m.fail (Text.encode "'for' initial value must be a number")
    | some l, some s, some f =>
      (((m.setReg a (i.a + 1) (.float l)).setReg a (i.a + 2) (.float s)).setReg a i.a
        (.float (f - s))).jump a i.bx
  match first, step with
  | .int f, .int s =>
    match integerLimit? limit s with
    | some (l, isEmpty) =>
      let start := if isEmpty then 0 else f
      ((m.setReg a (i.a + 1) (.int l)).setReg a i.a (.int (start - s))).jump a i.bx
    | none => floats ()
  | _, _ => floats ()

def continueLoop (i : Instruction) : Machine :=
  let again (v : Value) : Machine := ((m.setReg a i.a v).setReg a (i.a + 3) v).jump a i.bx
  match m.reg a i.a, m.reg a (i.a + 1), m.reg a (i.a + 2) with
  | .int n, .int limit, .int step =>
    let n := n + step
    if (if 0 < step then n ≤ limit else limit ≤ n) then again (.int n) else m
  | .float x, .float limit, .float step =>
    let x := x + step
    if (if 0.0 < step then x ≤ limit else limit ≤ x) then again (.float x) else m
  | _, _, _ => m

def iterateStep (i : Instruction) : Machine :=
  let func := a.base + i.a + 3
  let m := m.ensure (func + 3)
  let m := ((m.put func (m.reg a i.a)).put (func + 1) (m.reg a (i.a + 1))).put (func + 2)
    (m.reg a (i.a + 2))
  { m with top := func + 3 }.callNested func (some i.c) a.yieldable

/-! ### Calls, returns and closures -/

def callStep (i : Instruction) : Machine :=
  let func := a.base + i.a
  let m := if i.b == 0 then m else { m with top := func + i.b }
  m.callFlat func (if i.c == 0 then none else some (i.c - 1)) a.depth a.yieldable

/-- A function of a chunk takes the place of the one that calls it last. -/
def tailCallStep (i : Instruction) : Machine :=
  let func := a.base + i.a
  let m := if i.b == 0 then m else { m with top := func + i.b }
  let f := m.peek func
  let isCompiled := match f with
    | .closure id =>
      match m.store.closures[id]? with
      | some (.compiled ..) => true
      | _ => false
    | _ => false
  if isCompiled then
    let count := m.top - func
    let m := (m.closeCells a.base).pop
    let m := { m with stack := moveDown m.stack func a.func count, top := a.func + count }
    match m.enter a.func a.wanted a.depth a.yieldable true with
    | .ok m => m
    | .error message => m.fail message
  else m.callFlat func none a.depth a.yieldable

def returnStep (i : Instruction) : Machine :=
  let first := a.base + i.a
  let count := if i.b == 0 then m.top - first else i.b - 1
  ((m.closeCells a.base).pop).finishCall a.func a.wanted first count

def varargStep (i : Instruction) : Machine :=
  let available := a.base - a.func - 1 - a.prototype.parameters
  let source := a.base - available
  let target := a.base + i.a
  if i.b == 0 then
    if target + available + stackReserve > stackLimit then m.fail stackOverflowMessage
    else
      let m := m.ensure (target + available)
      { m with stack := moveDown m.stack source target available, top := target + available }
  else
    let wanted := i.b - 1
    let copied := min wanted available
    { m with
      stack := fillNil (moveDown m.stack source target copied) (target + copied) (wanted - copied) }

/-- The cells that a new closure captures. -/
def captureAll : List UpvalueSource → Machine → Array Nat → Machine × Array Nat
  | [], m, cells => (m, cells)
  | u :: rest, m, cells =>
    if u.inStack then
      let (m, cell) := m.capture (a.base + u.index)
      captureAll rest m (cells.push cell)
    else captureAll rest m (cells.push (a.cells.getD u.index 0))

/-- Makes a closure, or takes the one made last if it captures the same cells. -/
def closureStep (i : Instruction) : Machine :=
  match a.prototype.prototypes[i.bx.toNat]? with
  | none => m
  | some p =>
    let (m, cells) := captureAll a p.upvalues.toList m #[]
    let key := (a.chunk, p.number)
    let isSame (id : Nat) : Bool :=
      match m.store.closures[id]? with
      | some (.compiled _ _ others) => others == cells
      | _ => false
    let known := (m.store.recent[key]?).filter isSame
    match known with
    | some id => m.setReg a i.a (.closure id)
    | none =>
      let id := m.store.closures.size
      let m := { m with
        store.closures := m.store.closures.push (.compiled a.chunk p cells)
        store.recent := m.store.recent.insert key id }
      m.setReg a i.a (.closure id)

/-- Stores the last of a number of items first. -/
def setItems (t : Table) (value : Nat → Value) (last : Nat) : Nat → Table
  | 0 => t
  | n + 1 => setItems (t.setInt (Int32.ofNat last) (value (n + 1))) value (last - 1) n

def setListStep (i : Instruction) : Machine :=
  let start := a.base + i.a
  let count := if i.b == 0 then m.top - start - 1 else i.b
  let last := (i.c - 1) * Compiler.itemsPerStore + count
  match m.peek start with
  | .table t =>
    let items := m.stack.extract start (start + count + 1)
    { m with
      store := m.store.modifyTable t fun t => setItems t (fun n => items.getD n .nil) last count
      top := a.limit }
  | _ => m

/-- Runs an instruction; `a` already points to the one after it. -/
def execute (i : Instruction) : Machine :=
  match i.op with
  | .move => m.setReg a i.a (m.reg a i.b)
  | .loadK => m.setReg a i.a (a.prototype.constants.getD i.bx.toNat .nil)
  | .loadBool =>
    let m := m.setReg a i.a (.bool (i.b != 0))
    if i.c != 0 then m.jump a 1 else m
  | .loadNil => { m with stack := fillNil m.stack (a.base + i.a) (i.b + 1) }
  | .getUpval => m.setReg a i.a (m.cellValue (a.cells.getD i.b 0))
  | .getTabUp =>
    m.indexInto a (m.cellValue (a.cells.getD i.b 0)) (upvalueNamed a i.b) (m.operand a i.c) i.a
  | .getTable => m.indexInto a (m.reg a i.b) (nameOf a i.b) (m.operand a i.c) i.a
  | .setTabUp =>
    m.storeInto a (m.cellValue (a.cells.getD i.a 0)) (upvalueNamed a i.a) (m.operand a i.b)
      (m.operand a i.c)
  | .setUpval => m.setCell (a.cells.getD i.b 0) (m.reg a i.a)
  | .setTable => m.storeInto a (m.reg a i.a) (nameOf a i.a) (m.operand a i.b) (m.operand a i.c)
  | .newTable =>
    let id := m.store.tables.size
    { m with store := (m.store.newTable {}).1 }.setReg a i.a (.table id)
  | .self =>
    let object := m.reg a i.b
    let name := nameOf a i.b
    let key := m.operand a i.c
    (m.setReg a (i.a + 1) object).indexInto a object name key i.a
  | .add => m.arithmeticStep a .add i.a i.b i.c
  | .sub => m.arithmeticStep a .sub i.a i.b i.c
  | .mul => m.arithmeticStep a .mul i.a i.b i.c
  | .mod => m.arithmeticStep a .mod i.a i.b i.c
  | .pow => m.arithmeticStep a .pow i.a i.b i.c
  | .div => m.arithmeticStep a .div i.a i.b i.c
  | .idiv => m.arithmeticStep a .idiv i.a i.b i.c
  | .band => m.arithmeticStep a .band i.a i.b i.c
  | .bor => m.arithmeticStep a .bor i.a i.b i.c
  | .bxor => m.arithmeticStep a .bxor i.a i.b i.c
  | .shl => m.arithmeticStep a .shl i.a i.b i.c
  | .shr => m.arithmeticStep a .shr i.a i.b i.c
  | .unm => m.arithmeticStep a .unm i.a i.b i.b
  | .bnot => m.arithmeticStep a .bnot i.a i.b i.b
  | .not => m.setReg a i.a (.bool !(m.reg a i.b).truthy)
  | .len => m.lengthStep a i.a i.b
  | .concat => m.concatFrom a i (m.reg a i.c) (i.c - i.b)
  | .jmp => (if i.a > 0 then m.closeCells (a.base + i.a - 1) else m).jump a i.bx
  | .eq => m.equalStep a (i.a != 0) (m.operand a i.b) (m.operand a i.c)
  | .lt => m.lessStep a (i.a != 0) (m.operand a i.b) (m.operand a i.c)
  | .le => m.lessEqualStep a (i.a != 0) (m.operand a i.b) (m.operand a i.c)
  | .test => m.skipUnless a ((m.reg a i.a).truthy == (i.c != 0))
  | .testSet =>
    let v := m.reg a i.b
    if v.truthy == (i.c != 0) then m.setReg a i.a v else m.jump a 1
  | .call => m.callStep a i
  | .tailCall => m.tailCallStep a i
  | .ret => m.returnStep a i
  | .forLoop => m.continueLoop a i
  | .forPrep => m.prepareLoop a i
  | .tforCall => m.iterateStep a i
  | .tforLoop =>
    let v := m.reg a (i.a + 1)
    if v.isNil then m else (m.setReg a i.a v).jump a i.bx
  | .setList => m.setListStep a i
  | .closure => m.closureStep a i
  | .vararg => m.varargStep a i

/-! ### Requests of library functions -/

variable (n : NativeCall)

def become (activity : Activity) : Machine :=
  { m with frame := .native { n with activity } }

def complain (argument : Nat) (message : Bytes) : Machine :=
  let named : Option (String × Bytes) := match (m.activeFunctions none).head? with
    | some active => active.name
    | none => none
  let isMethod := named.any (·.1 == "method")
  let argument := if isMethod then argument - 1 else argument
  let fail (text : Bytes) : Machine := m.raise (.string (m.position 1 ++ text))
  let detail := Text.encode " (" ++ message ++ Text.encode ")"
  let name := match named with
    | some (_, name) => name
    | none => (m.globalName? n.function).getD (Text.encode "?")
  if isMethod && argument == 0 then
    fail (Text.encode "calling '" ++ name ++ Text.encode "' on bad self" ++ detail)
  else
    fail (Text.encode ("bad argument #" ++ toString argument ++ " to '") ++ name ++ Text.encode "'"
      ++ detail)

/-- Resumes a thread with values, or tells why that cannot be done. -/
def resumeStep (thread : Nat) (arguments : List Value) (k : Bool → List Value → Program) : Machine :=
  let refuse (message : String) : Machine := m.become n (.running (k false [ofText message]))
  let depth := m.depth + 1
  let begin (_ : Unit) : Machine :=
    { ((m.become n (.resuming k)).park .active).switch thread with
      baseDepth := depth, resumer := m.current }
  match m.phase thread with
  | .active => refuse "cannot resume non-suspended coroutine"
  | .finished => refuse "cannot resume dead coroutine"
  | .failed => refuse "cannot resume dead coroutine"
  | .fresh =>
    if depth ≥ callLimit then refuse "JS stack overflow"
    else
      let m := (begin ()).putAll 2 arguments
      { m with top := 2 + arguments.length }.callFlat 1 none 0 true
  | .suspended =>
    if depth ≥ callLimit then refuse "JS stack overflow"
    else
      let m := begin ()
      match m.frame with
      | .native inner =>
        match inner.activity with
        | .suspended k => m.become inner (.running (k arguments))
        | _ => m
      | _ => m

def yieldStep (values : List Value) (k : List Value → Program) : Machine :=
  if n.yieldable then (m.become n (.suspended k)).returnToResumer .suspended true values
  else
    m.raise (ofText (if m.current == 0 then "attempt to yield from outside a coroutine"
      else "attempt to yield across a JS-call boundary"))

/-- Runs a request of the active library function. -/
def request (p : Program) : Machine :=
  let go (p : Program) : Machine := m.become n (.running p)
  match p with
  | .done values => m.returnValues n values
  | .raise v => m.raise v
  | .fail message => m.raise (.string (m.position 1 ++ message))
  | .badArgument i message => m.complain n i message
  | .breakDown => m.unwind .brokenDown (m.peek (n.top - 1))
  | .query k => go (k m.store)
  | .update f k =>
    { m with store := f m.store, frame := .native { n with activity := .running (k ()) } }
  | .call f arguments k => (m.become n (.calling k)).callValues f arguments none false
  | .protect f arguments handler k =>
    (m.become n (.protecting handler m.top k)).callValues f arguments none n.yieldable
  | .reserve count k => go (k (m.top + stackReserve + count ≤ stackLimit))
  | .position level k => go (k (m.position level))
  | .traceback thread message level k => go (k (m.tracebackText thread message level))
  | .activeFunction thread level k => go (k ((m.activeFunctions thread)[level]?))
  | .compile source chunk k =>
    go (k (match Compiler.compile source chunk m.depth with
      | .ok p => .ok p
      | .error e => .error e.message))
  | .slot i k => go (k (m.slots.content i))
  | .spawn f k =>
    let id := m.threads.size
    let thread : Thread := { stack := #[.nil, f], top := 2 }
    { m with
      threads := m.threads.push thread
      store.unlisted := m.store.unlisted + 1
      frame := .native { n with activity := .running (k id) } }
  | .resume thread arguments k => m.resumeStep n thread arguments k
  | .yield values k => m.yieldStep n values k
  | .thisThread k => go (k m.current (m.current == 0) n.yieldable)
  | .status thread k => go (k (m.status thread))
  | .log line k => { m.become n (.logging k) with signal := some (.log line) }
  | .readFile path k => { m.become n (.reading k) with signal := some (.readFile path) }

/-- One step; a machine that waits for its host does none. -/
def step : Machine :=
  match m.signal with
  | some _ => m
  | none =>
    match m.frame with
    | .compiled a =>
      let i := (a.prototype.code[a.pc]?).getD default
      let a := { a with pc := a.pc + 1 }
      { m with frame := .compiled a }.execute a i
    | .native n =>
      match n.activity with
      | .running p => m.request n p
      | _ => m
    | _ => m


end LuaHost.Guest.Machine
