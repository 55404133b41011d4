import LuaHost.Guest.Traceback
import LuaHost.Guest.Library
/-!
Calls, their failures and their returns. A failure first shows the error object to the message handler
in force, while all functions are still active, and then leaves them up to whoever protects the call.
-/

namespace LuaHost.Guest.Machine

/-! ### Failure -/

/-- What is done with an error object before functions are left. -/
inductive Handler where
  | none
  | function (f : Value)
  | traceback

/-- The handler set by the nearest protected call. -/
def handlerOf : List Frame → Handler
  | [] => .none
  | .bottom :: _ => .none
  | .gate _ :: _ => .traceback
  | .native n :: below =>
    match n.activity with
    | .protecting (some f) .. => .function f
    | .protecting none .. => .none
    | _ => handlerOf below
  | _ :: below => handlerOf below

def handler (m : Machine) : Handler := handlerOf (m.frame :: m.callers)

/-- Gives the thread that resumed this one the outcome. -/
def returnToResumer (m : Machine) (phase : Phase) (ok : Bool) (values : List Value) : Machine :=
  let m := (m.park phase).switch m.resumer
  match m.frame with
  | .native n =>
    match n.activity with
    | .resuming k => { m with frame := .native { n with activity := .running (k ok values) } }
    | _ => m
  | _ => m

def leaveGate (m : Machine) (g : Gate) (below : List Frame) (signal : Signal) : Machine :=
  let m := { m with
    frame := below.headD .bottom
    callers := below.tail
    top := g.savedTop
    signal := some signal }
  if g.thread == m.current then m else (m.park .active).switch g.thread

/-- Leaves functions up to the nearest protected call. -/
def unwindTo (m : Machine) (status : Status) (error : Value) : List Frame → Machine
  | [] => m
  | .bottom :: _ => m.returnToResumer .failed false [error]
  | .gate g :: below =>
    (m.closeCells g.savedTop).leaveGate g below (.failed status error m.traceback)
  | .native n :: below =>
    match n.activity with
    | .protecting _ level k =>
      { m.closeCells level with
        frame := .native { n with activity := .running (k false [error]) }
        callers := below
        top := n.top }
    | _ => m.unwindTo status error below
  | _ :: below => m.unwindTo status error below

def handlerFailedMessage : Value := ofText "error in error handling"

def unwind (m : Machine) (status : Status) (error : Value) : Machine :=
  let error := if status == .handlerFailed then handlerFailedMessage else error
  m.unwindTo status error (m.frame :: m.callers)

/-- The position of the active function, if it belongs to a chunk. -/
def here (m : Machine) : Bytes :=
  match m.frame with
  | .compiled a =>
    ChunkName.untilZero (ChunkName.shown a.prototype.source)
      ++ Text.encode (":" ++ toString a.line ++ ": ")
  | _ => ByteArray.empty

/-- A message behind the position of the active function. -/
def positioned (m : Machine) (message : Bytes) : Value := .string (m.here ++ message)

def overflowMessage : Bytes := Text.encode "JS stack overflow"

def stackOverflowMessage : Bytes := Text.encode "stack overflow"

def typeErrorMessage (m : Machine) (v : Value) (name : Option Naming.Named) (operation : String) :
    Bytes :=
  Text.encode ("attempt to " ++ operation ++ " a ") ++ m.store.typeName v ++ Text.encode " value"
    ++ Naming.note name

/-! ### Entering functions -/

/-- Enters a function of a chunk whose arguments are on the stack. -/
def enterCompiled (m : Machine) (func closure chunk : Nat) (p : Prototype) (cells : Array Nat)
    (wanted : Option Nat) (depth : Nat) (yieldable isTailCall : Bool) : Except Bytes Machine :=
  let count := m.top - func - 1
  if m.top + p.registers + stackReserve > stackLimit then .error stackOverflowMessage
  else
    let base := if p.isVararg then m.top else func + 1
    let m := m.ensure (base + p.registers)
    let m :=
      if p.isVararg then
        let fixed := min count p.parameters
        let stack := moveDown m.stack (func + 1) base fixed
        let stack := fillNil stack (func + 1) fixed
        { m with stack := fillNil stack (base + fixed) (p.parameters - fixed) }
      else { m with stack := fillNil m.stack (func + 1 + count) (p.parameters - count) }
    .ok { m with
      frame := .compiled
        { func, base, closure, chunk, prototype := p, cells, pc := 0, wanted, isTailCall
          finish := .results, yieldable, depth }
      callers := m.frame :: m.callers
      top := base + p.registers }

def enterNative (m : Machine) (func : Nat) (function : Value) (activity : List Value → Activity)
    (wanted : Option Nat) (depth : Nat) (yieldable : Bool) : Except Bytes Machine :=
  if m.top + nativeRoom + stackReserve > stackLimit then .error stackOverflowMessage
  else
    let arguments := m.range (func + 1) (m.top - func - 1)
    .ok { m with
      frame := .native
        { func, function, wanted, activity := activity arguments, top := m.top, depth, yieldable }
      callers := m.frame :: m.callers }

def enterHost (m : Machine) (func index : Nat) (wanted : Option Nat) (depth : Nat)
    (yieldable : Bool) : Except Bytes Machine :=
  let arguments := m.range (func + 1) (m.top - func - 1)
  match m.enterNative func (.host index) (.hostCall index) wanted depth yieldable with
  | .ok m => .ok { m with signal := some (.hostCall index arguments) }
  | .error e => .error e

/-- Enters the function at `func` with the arguments above it. -/
def enterFunction (m : Machine) (func : Nat) (f : Value) (wanted : Option Nat) (depth : Nat)
    (yieldable isTailCall : Bool) : Except Bytes Machine :=
  let native (p : List Value → Program) :=
    m.enterNative func f (fun arguments => .running (p arguments)) wanted depth yieldable
  match f with
  | .builtin b => native (Library.run b)
  | .host index => m.enterHost func index wanted depth yieldable
  | .closure id =>
    match m.store.closures[id]? with
    | some (.compiled chunk p cells) =>
      m.enterCompiled func id chunk p cells wanted depth yieldable isTailCall
    | some (.matches ..) => native fun _ => Library.nextMatch id
    | some (.resumes thread) => native (Library.resumeWrapped thread)
    | none => .ok m
  | _ => .ok m

/-- Moves a function and its arguments up by one place. -/
def shiftUp (m : Machine) (func : Nat) : Machine :=
  let values := m.range func (m.top - func)
  { m.putAll (func + 1) values with top := m.top + 1 }

/-- Enters whatever is at `func`: a function, or a value whose metatable tells how it is called. -/
def enter (m : Machine) (func : Nat) (wanted : Option Nat) (depth : Nat) (yieldable : Bool)
    (isTailCall : Bool) : Except Bytes Machine :=
  let f := m.peek func
  if f.isFunction then m.enterFunction func f wanted depth yieldable isTailCall
  else
    let handler := m.store.metafield f Event.call
    if handler.isFunction then
      ((m.shiftUp func).put func handler).enterFunction func handler wanted depth yieldable isTailCall
    else
      let name := match m.frame with
        | .compiled a =>
          if a.base ≤ func then Naming.ofRegister? a.prototype (func - a.base) a.current else none
        | _ => none
      .error (m.typeErrorMessage f name "call")

/-- Whether one more nested call is too many. -/
inductive Nesting where
  | fine
  | overflow
  | hopeless

def nesting (depth : Nat) : Nesting :=
  if depth == callLimit then .overflow
  else if depth ≥ handlerLimit then .hopeless
  else .fine

/-- Raises an error object at a depth of calls; `fuel` bounds how often handlers may fail. -/
def raiseAt : Nat → Machine → Nat → Value → Machine
  | 0, m, _, _ => m.unwind .handlerFailed .nil
  | fuel + 1, m, depth, error =>
    match m.handler with
    | .none => m.unwind .raised error
    | .traceback =>
      match nesting (depth + 1) with
      | .fine => { m with traceback := some (m.tracebackText none none 0) }.unwind .raised error
      | .overflow => raiseAt fuel m (depth + 1) (m.positioned overflowMessage)
      | .hopeless => m.unwind .handlerFailed .nil
    | .function f =>
      match nesting (depth + 1) with
      | .overflow => raiseAt fuel m (depth + 1) (m.positioned overflowMessage)
      | .hopeless => m.unwind .handlerFailed .nil
      | .fine =>
        let func := m.top
        let called := m.putAll func [f, error]
        let called := { called with
          frame := .handling (depth + 1 - m.baseDepth)
          callers := m.frame :: m.callers
          top := func + 2 }
        match called.enter func (some 1) (depth + 1 - m.baseDepth) false false with
        | .ok m => m
        | .error message => raiseAt fuel called (depth + 1) (m.positioned message)

def raise (m : Machine) (error : Value) : Machine :=
  raiseAt (handlerLimit + 1) m m.depth error

/-- Raises a message behind the position of the active function. -/
def fail (m : Machine) (message : Bytes) : Machine := m.raise (m.positioned message)

def failTyped (m : Machine) (v : Value) (name : Option Naming.Named) (operation : String) : Machine :=
  m.fail (m.typeErrorMessage v name operation)

/-- A call that does not count as nested. -/
def callFlat (m : Machine) (func : Nat) (wanted : Option Nat) (depth : Nat) (yieldable : Bool) :
    Machine :=
  match m.enter func wanted depth yieldable false with
  | .ok m => m
  | .error message => m.fail message

/-- A call one level deeper. -/
def callNested (m : Machine) (func : Nat) (wanted : Option Nat) (yieldable : Bool) : Machine :=
  let depth := m.frame.depth + 1
  match nesting (m.baseDepth + depth) with
  | .fine => m.callFlat func wanted depth yieldable
  | .overflow => raiseAt (handlerLimit + 1) m (m.baseDepth + depth) (m.positioned overflowMessage)
  | .hopeless => m.unwind .handlerFailed .nil

/-- Puts a function and its arguments on top of the stack and calls it. -/
def callValues (m : Machine) (f : Value) (arguments : List Value) (wanted : Option Nat)
    (yieldable : Bool) : Machine :=
  let func := m.top
  let m := m.putAll func (f :: arguments)
  { m with top := func + 1 + arguments.length }.callNested func wanted yieldable

/-- Calls a metamethod for an active function of a chunk. -/
def callMeta (m : Machine) (a : Activation) (f : Value) (arguments : List Value) (finish : Finish) :
    Machine :=
  { m with frame := .compiled { a with finish } }.callValues f arguments (some 1) a.yieldable

/-! ### Joining texts -/

def concatText? : Value → Option Bytes
  | .string s => some s
  | .int n => some (Text.encode (Numeral.text (.int n)))
  | .float x => some (Text.encode (Numeral.text (.float x)))
  | _ => none

/-- Joins the operands of a concatenation from the right; `remaining` operands are left of `joined`. -/
def concatFrom (m : Machine) (a : Activation) (i : Instruction) (joined : Value) : Nat → Machine
  | 0 =>
    { m.put (a.base + i.a) joined with
      frame := .compiled { a with finish := .results }, top := a.limit }
  | remaining + 1 =>
    let place := i.b + remaining
    let left := m.peek (a.base + place)
    match concatText? left, concatText? joined with
    | some x, some y => m.concatFrom a i (.string (x ++ y)) remaining
    | _, _ =>
      let first := m.store.metafield left Event.concat
      let handler := if first.isNil then m.store.metafield joined Event.concat else first
      if !handler.isNil then
        { m with top := a.limit }.callMeta a handler [left, joined] (.concat remaining)
      else
        let (blamed, register) :=
          if (concatText? left).isSome then (joined, place + 1) else (left, place)
        m.failTyped blamed (Naming.ofRegister? a.prototype register a.current) "concatenate"

/-! ### Returning -/

/-- Goes on with the active function after a call: its `count` results are on the stack from `first`
on, and the function called was at `func`. -/
def finishCall (m : Machine) (func : Nat) (wanted : Option Nat) (first count : Nat) : Machine :=
  let value (m : Machine) := if count == 0 then Value.nil else m.peek first
  let values (m : Machine) := m.range first count
  match m.frame with
  | .compiled a =>
    let back (m : Machine) := { m with frame := .compiled { a with finish := .results }, top := a.limit }
    match a.finish with
    | .results =>
      match wanted with
      | none => { m with stack := moveDown m.stack first func count, top := func + count }
      | some n =>
        let moved := min count n
        { m with
          stack := fillNil (moveDown m.stack first func moved) (func + moved) (n - moved)
          top := a.limit }
    | .register r =>
      let v := value m
      back (m.put (a.base + r) v)
    | .test expected =>
      let a := if (value m).truthy == expected then a else { a with pc := a.pc + 1 }
      { m with frame := .compiled { a with finish := .results }, top := a.limit }
    | .nothing => back m
    | .concat remaining =>
      let i := (a.prototype.code[a.current]?).getD default
      let v := value m
      (m.put (a.base + i.b + remaining) v).concatFrom a i v remaining
  | .native n =>
    let continued (p : Program) : Machine :=
      { m with frame := .native { n with activity := .running p }, top := n.top }
    match n.activity with
    | .calling k => continued (k (values m))
    | .protecting _ _ k => continued (k true (values m))
    | _ => m
  | .handling _ => m.unwind .raised (value m)
  | .gate g => m.leaveGate g m.callers (.finished (values m))
  | .bottom => m.returnToResumer .finished true (values m)

/-- Leaves the active function. -/
def pop (m : Machine) : Machine :=
  { m with frame := m.callers.headD .bottom, callers := m.callers.tail }

/-- Leaves the active library function with its results. -/
def returnValues (m : Machine) (n : NativeCall) (values : List Value) : Machine :=
  (m.pop.putAll n.func values).finishCall n.func n.wanted n.func values.length

end LuaHost.Guest.Machine
