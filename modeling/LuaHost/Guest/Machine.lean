import LuaHost.Guest.Program
import LuaHost.Guest.Naming
/-!
The state of the guest machine: one stack of values per thread, the functions active on it, and the
requests that the machine waits for. The host's slots are kept apart from the heap: only the host
fills them and frees them, and no step of the machine changes them.
-/

namespace LuaHost.Guest

/-- Slots that keep guest objects for the host. A free slot holds the number of the free slot after
it, which is what is found there by whoever looks. -/
structure Slots where
  /-- The objects by slot; nothing in a free slot. -/
  objects : Array (Option Value) := #[]
  /-- Free slots; the one at the head is taken next. -/
  free : List Nat := []
  deriving Inhabited

namespace Slots

/-- The number of the first slot. -/
def first : Nat := 3

/-- The free slot behind a given one in the list. -/
def after (slot : Nat) : List Nat → Option Nat
  | a :: b :: rest => if a == slot then some b else after slot (b :: rest)
  | _ => none

def get? (s : Slots) (slot : Nat) : Option Value := (s.objects[slot]?).bind id

/-- What is found in a slot, be it free or not. -/
def content (s : Slots) (slot : Nat) : Value :=
  match s.get? slot with
  | some v => v
  | none =>
    match after slot s.free with
    | some next => .int (Int32.ofNat (next + first))
    | none => .nil

/-- The slot that the next object gets: one that was freed, or a new one. -/
def next (s : Slots) : Nat := s.free.headD s.objects.size

/-- Puts an object into the next slot. -/
def pin (s : Slots) (v : Value) : Slots :=
  match s.free with
  | slot :: rest => { objects := s.objects.setIfInBounds slot (some v), free := rest }
  | [] => { s with objects := s.objects.push (some v) }

def unpin (s : Slots) (slot : Nat) : Slots :=
  { objects := s.objects.setIfInBounds slot none, free := slot :: s.free }

end Slots

/-- What a function of a chunk does with the result of the call it waits for. -/
inductive Finish where
  /-- Leaves the results where they are. -/
  | results
  | register (r : Nat)
  /-- Skips the next instruction unless the truth of the result is `expected`. -/
  | test (expected : Bool)
  | nothing
  /-- Goes on joining texts; so many operands are left. -/
  | concat (remaining : Nat)
  deriving Inhabited

/-- An active function of a chunk. Registers are stack places from `base` on. -/
structure Activation where
  func : Nat
  base : Nat
  closure : Nat
  chunk : Nat
  prototype : Prototype
  cells : Array Nat
  pc : Nat
  /-- How many results the caller wants; all of them if there is no number. -/
  wanted : Option Nat
  isTailCall : Bool
  finish : Finish
  /-- May the thread be suspended as far as the calls below this one go? -/
  yieldable : Bool
  /-- Calls that are nested in each other down to here, as far as they are limited. -/
  depth : Nat
  deriving Inhabited

/-- What an active library function is about. -/
inductive Activity where
  | running (p : Program)
  | calling (k : List Value → Program)
  /-- Waits for a call whose failure it takes; registers from `level` on belong to the call. -/
  | protecting (handler : Option Value) (level : Nat) (k : Bool → List Value → Program)
  | resuming (k : Bool → List Value → Program)
  | suspended (k : List Value → Program)
  /-- Waits for the host to run a function of its own. -/
  | hostCall (index : Nat) (arguments : List Value)
  | logging (k : Unit → Program)
  | reading (k : Except String Bytes → Program)
  deriving Inhabited

structure NativeCall where
  func : Nat
  function : Value
  wanted : Option Nat
  activity : Activity
  /-- One past the last argument. -/
  top : Nat
  depth : Nat
  /-- May the thread be suspended as far as the calls below this one go? -/
  yieldable : Bool
  deriving Inhabited

/-- How guest code failed. -/
inductive Status where
  | raised
  /-- The message handler failed again and again. -/
  | handlerFailed
  /-- A failure that is not the guest's own. -/
  | brokenDown
  deriving DecidableEq, Repr, Inhabited

/-- A call from the host: where the stack was, how deep calls were nested there, and the thread that
goes on afterwards. -/
structure Gate where
  savedTop : Nat
  depth : Nat
  thread : Nat
  deriving Inhabited

inductive Frame where
  /-- The lowest level of a thread. -/
  | bottom
  | compiled (a : Activation)
  | native (n : NativeCall)
  /-- A message handler runs above, at a depth of calls; its result is the error object. -/
  | handling (depth : Nat)
  | gate (g : Gate)
  deriving Inhabited

inductive Phase where
  | fresh
  | suspended
  | active
  | finished
  | failed
  deriving DecidableEq, Repr, Inhabited

structure Thread where
  stack : Array Value := #[.nil]
  top : Nat := 1
  frame : Frame := .bottom
  callers : List Frame := []
  /-- Cells that are registers of this thread, the highest first. -/
  openCells : List (Nat × Nat) := []
  /-- The depth of calls at which the thread was resumed. -/
  baseDepth : Nat := 0
  phase : Phase := .fresh
  /-- The thread that resumed this one. -/
  resumer : Nat := 0
  deriving Inhabited

/-- What the machine stops for. -/
inductive Signal where
  | finished (values : List Value)
  | failed (status : Status) (error : Value) (traceback : Option Bytes)
  | hostCall (index : Nat) (arguments : List Value)
  | log (line : String)
  | readFile (path : Bytes)
  deriving Inhabited

structure Machine where
  store : Store := {}
  slots : Slots := {}
  /-- The running thread's own state. -/
  stack : Array Value := #[.nil]
  top : Nat := 1
  frame : Frame := .bottom
  callers : List Frame := []
  openCells : List (Nat × Nat) := []
  baseDepth : Nat := 0
  resumer : Nat := 0
  current : Nat := 0
  /-- The threads; what is said of the running one here is out of date but for its phase. -/
  threads : Array Thread := #[{ phase := .active }]
  /-- The traceback taken when the last error was raised that no guest code handles. -/
  traceback : Option Bytes := none
  signal : Option Signal := none
  deriving Inhabited

/-- The number of stack places a thread may use. -/
def stackLimit : Nat := 1000000

/-- Places kept free above the stack, and those a library function may always use. -/
def stackReserve : Nat := 5
def nativeRoom : Nat := 20

/-- Calls that may be nested where nesting is limited, and how far handlers of the failure may go. -/
def callLimit : Nat := 200
def handlerLimit : Nat := 225

namespace Frame

def depth : Frame → Nat
  | compiled a => a.depth
  | native n => n.depth
  | handling depth => depth
  | gate g => g.depth
  | _ => 0

/-- Marks of the machine itself are no functions. -/
def isFunction : Frame → Bool
  | compiled _ => true
  | native _ => true
  | _ => false

end Frame

namespace Activation

/-- One past the highest register. -/
def limit (a : Activation) : Nat := a.base + a.prototype.registers

/-- The instruction that is being run. -/
def current (a : Activation) : Nat := a.pc - 1

def line (a : Activation) : Nat := a.prototype.lineAt a.current

end Activation

namespace Machine

def peek (m : Machine) (i : Nat) : Value := m.stack.getD i .nil

def put (m : Machine) (i : Nat) (v : Value) : Machine :=
  { m with stack := m.stack.setIfInBounds i v }

/-- Makes room on the stack, so that `size` places exist. -/
def ensure (m : Machine) (size : Nat) : Machine :=
  if m.stack.size < size then
    { m with stack := m.stack ++ Array.replicate (size - m.stack.size) .nil }
  else m

/-- The values in `count` places from `start` on. -/
def range (m : Machine) (start count : Nat) : List Value :=
  (m.stack.extract start (start + count)).toList

/-- Puts values on the stack from a place on. -/
def putAll (m : Machine) (start : Nat) (values : List Value) : Machine :=
  let m := m.ensure (start + values.length)
  { m with stack := (values.foldl (fun s v => (s.1.setIfInBounds s.2 v, s.2 + 1)) (m.stack, start)).1 }

/-- Moves `count` values down from `source` to `target`. -/
def moveDown (stack : Array Value) (source target : Nat) : Nat → Array Value
  | 0 => stack
  | count + 1 =>
    moveDown (stack.setIfInBounds target (stack.getD source .nil)) (source + 1) (target + 1) count

/-- Fills `count` places with nil. -/
def fillNil (stack : Array Value) (start : Nat) : Nat → Array Value
  | 0 => stack
  | count + 1 => fillNil (stack.setIfInBounds start .nil) (start + 1) count

/-! ### Captured variables -/

def cellValue (m : Machine) (cell : Nat) : Value :=
  match m.store.cells.getD cell (.closed .nil) with
  | .closed v => v
  | .register thread i =>
    if thread == m.current then m.peek i
    else ((m.threads[thread]?).bind (·.stack[i]?)).getD .nil

def setCell (m : Machine) (cell : Nat) (v : Value) : Machine :=
  match m.store.cells.getD cell (.closed .nil) with
  | .closed _ =>
    { m with store.cells := m.store.cells.setIfInBounds cell (.closed v) }
  | .register thread i =>
    if thread == m.current then m.put i v
    else
      { m with threads := m.threads.modify thread fun t => { t with stack := t.stack.setIfInBounds i v } }

/-- The cell of a register, made if the register is not captured yet. -/
def capture (m : Machine) (place : Nat) : Machine × Nat :=
  match m.openCells.find? (·.1 == place) with
  | some (_, cell) => (m, cell)
  | none =>
    let cell := m.store.cells.size
    let above := m.openCells.takeWhile (·.1 > place)
    let below := m.openCells.dropWhile (·.1 > place)
    ({ m with
        store.cells := m.store.cells.push (.register m.current place)
        openCells := above ++ (place, cell) :: below }, cell)

/-- Lets captured registers from `level` on live on their own. -/
def closeCells (m : Machine) (level : Nat) : Machine :=
  match m.openCells with
  | [] => m
  | (top, _) :: _ =>
    if top < level then m
    else
      let leaving := (m.openCells.takeWhile (·.1 ≥ level)).map fun (place, cell) =>
        (cell, m.peek place)
      { m with
        store.cells := leaving.foldl (fun cells (cell, v) =>
          cells.setIfInBounds cell (.closed v)) m.store.cells
        openCells := m.openCells.dropWhile (·.1 ≥ level) }

/-! ### Threads -/

/-- Lays the running thread aside. -/
def park (m : Machine) (phase : Phase) : Machine :=
  let thread : Thread :=
    { stack := m.stack
      top := m.top
      frame := m.frame
      callers := m.callers
      openCells := m.openCells
      baseDepth := m.baseDepth
      phase
      resumer := m.resumer }
  { m with threads := m.threads.setIfInBounds m.current thread }

/-- Takes a thread up. -/
def switch (m : Machine) (thread : Nat) : Machine :=
  match m.threads[thread]? with
  | none => m
  | some t =>
    { m with
      stack := t.stack
      top := t.top
      frame := t.frame
      callers := t.callers
      openCells := t.openCells
      baseDepth := t.baseDepth
      resumer := t.resumer
      current := thread
      threads := m.threads.setIfInBounds thread { phase := .active } }

def phase (m : Machine) (thread : Nat) : Phase :=
  ((m.threads[thread]?).map (·.phase)).getD .finished

/-- How a thread is seen by the running one. -/
def status (m : Machine) (thread : Nat) : ThreadStatus :=
  if thread == m.current then .running
  else
    match m.phase thread with
    | .fresh => .suspended
    | .suspended => .suspended
    | .active => .normal
    | .finished => .dead
    | .failed => .dead

/-- The depth of calls at the active function. -/
def depth (m : Machine) : Nat := m.baseDepth + m.frame.depth

/-- The depth of calls on the main thread. -/
def mainDepth (m : Machine) : Nat :=
  if m.current == 0 then m.depth
  else
    match m.threads[0]? with
    | some t => t.baseDepth + t.frame.depth
    | none => 0

end Machine

end LuaHost.Guest
