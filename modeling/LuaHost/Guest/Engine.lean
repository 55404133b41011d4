import LuaHost.Guest.Step
import LuaHost.Guest.Start
/-!
The machine as its host drives it: the host enters a call, lets the machine run until it stops for
something, and answers. Calls from the host always run on the main thread, on top of whatever waits
there.
-/

namespace LuaHost.Guest.Machine

/-- Runs until the machine stops for something, for at most so many steps. -/
def run : Nat → Machine → Machine
  | 0, m => m
  | n + 1, m =>
    match m.signal with
    | some _ => m
    | none => run n m.step

/-- Begins a call from the host. -/
def enterGate (m : Machine) : Machine :=
  let thread := m.current
  let m := if thread == 0 then m else (m.park .active).switch 0
  { m with
    frame := .gate { savedTop := m.top, depth := m.frame.depth, thread }
    callers := m.frame :: m.callers
    top := m.top + 1
    traceback := none
    signal := none }

/-- Is there room for so many values above the function to be called? -/
def hasRoom (m : Machine) (count : Nat) : Bool := m.top + 1 + stackReserve + count ≤ stackLimit

/-- Is there room for so many values above those that a function of the host has? -/
def hasRoomAbove (m : Machine) (count : Nat) : Bool := m.top + stackReserve + count ≤ stackLimit

/-- Calls a function from the host; the gate is open and `hasRoom` has been asked. -/
def callFromHost (m : Machine) (f : Value) (arguments : List Value) : Machine :=
  m.callValues f arguments none false

/-- Runs a function that the host itself wrote. -/
def runFromHost (m : Machine) (p : Program) : Machine :=
  let func := m.top
  let m := (m.ensure (func + 1)).put func .nil
  let m := { m with top := func + 1 }
  let depth := m.frame.depth + 1
  match nesting depth with
  | .overflow => raiseAt (handlerLimit + 1) m depth (m.positioned overflowMessage)
  | .hopeless => m.unwind .handlerFailed .nil
  | .fine =>
    match m.enterNative func .nil (fun _ => .running p) none depth false with
    | .ok m => m
    | .error message => m.fail message

/-- Gives a call from the host up before its function is entered. -/
def abandon (m : Machine) : Machine :=
  match m.frame with
  | .gate g => { m.leaveGate g m.callers (.finished []) with signal := none }
  | _ => m

/-- Returns from a function of the host. -/
def answer (m : Machine) (values : List Value) : Machine :=
  match m.frame with
  | .native n => { m with signal := none }.returnValues n values
  | _ => m

/-- Raises an error object in a function of the host. -/
def raiseFromHost (m : Machine) (error : Value) : Machine :=
  { m with signal := none }.raise error

/-- A function of the host broke down after it had handed over some values. -/
def breakDown (m : Machine) (values : List Value) : Machine :=
  let top := match m.frame with
    | .native n => m.peek (n.top - 1)
    | _ => .nil
  { m with signal := none }.unwind .brokenDown (values.getLastD top)

/-- The host has dealt with a line. -/
def answerLog (m : Machine) : Machine :=
  let m := { m with signal := none }
  match m.frame with
  | .native n =>
    match n.activity with
    | .logging k => m.become n (.running (k ()))
    | _ => m
  | _ => m

/-- The host has read a file. -/
def answerFile (m : Machine) (content : Except String Bytes) : Machine :=
  let m := { m with signal := none }
  match m.frame with
  | .native n =>
    match n.activity with
    | .reading k => m.become n (.running (k content))
    | _ => m
  | _ => m

end LuaHost.Guest.Machine
