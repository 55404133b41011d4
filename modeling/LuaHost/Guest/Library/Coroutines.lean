import LuaHost.Guest.Library.Arguments
/-!
Threads: made from a function, resumed and suspended.
-/

namespace LuaHost.Guest.Library

variable (args : Arguments)

def spawn : Act Nat := do
  let f ← args.function 1
  fun k => .spawn f k

def coCreate : Act (List Value) := do
  return [.thread (← spawn args)]

def coWrap : Act (List Value) := do
  let thread ← spawn args
  return [← Act.newClosure (.resumes thread)]

def resume (thread : Nat) (values : List Value) : Act (Bool × List Value) := fun k =>
  .resume thread values fun ok values => k (ok, values)

def coResume : Act (List Value) := do
  let thread ← args.thread 1
  let (ok, values) ← resume thread (args.toList.drop 1)
  return .bool ok :: values

/-- Resumes a wrapped thread; a failure is raised, and a text among them gets a position in front. -/
def resumeWrappedAct (thread : Nat) (values : List Value) : Act (List Value) := do
  let (ok, values) ← resume thread values
  if ok then return values
  else
    match values.headD .nil with
    | .string s =>
      let place ← Act.position 1
      Act.raise (.string (place ++ s))
    | v => Act.raise v

def resumeWrapped (thread : Nat) (values : List Value) : Program :=
  (resumeWrappedAct thread values).toProgram

def coYield : Act (List Value) := fun k => .yield args.toList k

def statusText : ThreadStatus → String
  | .suspended => "suspended"
  | .running => "running"
  | .normal => "normal"
  | .dead => "dead"

def coStatus : Act (List Value) := do
  let thread ← args.thread 1
  let status ← (fun k => .status thread k : Act ThreadStatus)
  return [ofText (statusText status)]

def coRunning : Act (List Value) := fun k =>
  .thisThread fun thread isMain _ => k [.thread thread, .bool isMain]

def coIsYieldable : Act (List Value) := fun k =>
  .thisThread fun _ _ yieldable => k [.bool yieldable]

end LuaHost.Guest.Library
