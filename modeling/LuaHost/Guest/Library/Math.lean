import LuaHost.Guest.Library.Arguments
/-!
Mathematical functions. Results that are whole and fit are integers where a function rounds.
-/

namespace LuaHost.Guest.Library

variable (args : Arguments)

def floatResult (f : Float → Float) : Act (List Value) := do
  return [.float (f (← args.number 1))]

/-- A whole float as an integer, if it fits. -/
def wholeResult (x : Float) : Value :=
  match integerOfFloat? x with
  | some n => .int n
  | none => .float x

def rounded (f : Float → Float) : Act (List Value) := do
  match args.get 1 with
  | .int n => return [.int n]
  | _ => return [wholeResult (f (← args.number 1))]

def mathFloor : Act (List Value) := rounded args Float.floor

def mathCeil : Act (List Value) := rounded args Float.ceil

def mathAbs : Act (List Value) := do
  match args.get 1 with
  | .int n => return [.int (if n < 0 then -n else n)]
  | _ => floatResult args Float.abs

def mathAtan : Act (List Value) := do
  let y ← args.number 1
  let x ← if args.isNoneOrNil 2 then pure 1.0 else args.number 2
  return [.float (Float.atan2 y x)]

def pi : Float := 3.141592653589793

def mathDeg : Act (List Value) := floatResult args fun x => x * (180.0 / pi)

def mathRad : Act (List Value) := floatResult args fun x => x * (pi / 180.0)

def mathLog : Act (List Value) := do
  let x ← args.number 1
  if args.isNoneOrNil 2 then return [.float x.log]
  else
    let base ← args.number 2
    return [.float (if base == 2.0 then x.log2
      else if base == 10.0 then x.log10
      else x.log / base.log)]

def mathFmod : Act (List Value) := do
  match args.get 1, args.get 2 with
  | .int a, .int b =>
    if b == 0 then Act.badArgument 2 "zero"
    else return [.int (Int32.ofInt (a.toInt.tmod b.toInt))]
  | _, _ =>
    let a ← args.number 1
    return [.float (floatRemainder a (← args.number 2))]

def mathModf : Act (List Value) := do
  match args.get 1 with
  | .int n => return [.int n, .float 0.0]
  | _ =>
    let x ← args.number 1
    let whole := if x < 0.0 then x.ceil else x.floor
    return [.float whole, .float (if whole == x then 0.0 else x - whole)]

/-- The argument that comes out best of pairwise comparisons. -/
def best (better : Value → Value → Act Bool) : List Value → Value → Act Value
  | [], v => pure v
  | x :: rest, v => do
    if ← better x v then best better rest x else best better rest v

def mathMax : Act (List Value) := do
  Act.require (args.size ≥ 1) 1 "value expected"
  return [← best (fun x v => Act.lessThan v x) (args.toList.drop 1) (args.get 1)]

def mathMin : Act (List Value) := do
  Act.require (args.size ≥ 1) 1 "value expected"
  return [← best (fun x v => Act.lessThan x v) (args.toList.drop 1) (args.get 1)]

def mathTointeger : Act (List Value) := do
  match toInteger? (args.get 1) with
  | some n => return [.int n]
  | none =>
    let _ ← args.any 1
    return [.nil]

def mathType : Act (List Value) := do
  match args.get 1 with
  | .int _ => return [ofText "integer"]
  | .float _ => return [ofText "float"]
  | _ =>
    let _ ← args.any 1
    return [.nil]

def mathUlt : Act (List Value) := do
  let a ← args.int 1
  let b ← args.int 2
  return [.bool (a.toUInt32 < b.toUInt32)]

end LuaHost.Guest.Library
