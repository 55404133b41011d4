import LuaHost.Guest.Numeral
/-!
Arithmetic, bitwise operations and comparisons on guest numbers. Integers have 32 bits and wrap.
-/

namespace LuaHost.Guest

inductive ArithmeticOp where
  | add | sub | mul | mod | pow | div | idiv | band | bor | bxor | shl | shr | unm | bnot
  deriving DecidableEq, Repr

namespace ArithmeticOp

/-- Bitwise operations need integers on both sides. -/
def isBitwise : ArithmeticOp → Bool
  | band => true
  | bor => true
  | bxor => true
  | shl => true
  | shr => true
  | bnot => true
  | _ => false

/-- Powers and true divisions are always floats. -/
def isFloatOnly : ArithmeticOp → Bool
  | pow => true
  | div => true
  | _ => false

/-- The metamethod asked when the operands are not numbers. -/
def event : ArithmeticOp → String
  | add => "__add"
  | sub => "__sub"
  | mul => "__mul"
  | mod => "__mod"
  | pow => "__pow"
  | div => "__div"
  | idiv => "__idiv"
  | band => "__band"
  | bor => "__bor"
  | bxor => "__bxor"
  | shl => "__shl"
  | shr => "__shr"
  | unm => "__unm"
  | bnot => "__bnot"

end ArithmeticOp

/-- Why an operation on two numbers fails. -/
inductive ArithmeticError where
  | dividedByZero
  | remainderByZero
  deriving DecidableEq, Repr

def ArithmeticError.message : ArithmeticError → String
  | dividedByZero => "attempt to divide by zero"
  | remainderByZero => "attempt to perform 'n%0'"

/-- The remainder of magnitudes, with the sign of the first operand; exact. -/
def floatRemainder (a b : Float) : Float :=
  match Decimal.shape a, Decimal.shape b with
  | .finite x, .finite y =>
    if y.mantissa = 0 then 0.0 / 0.0
    else if a.abs < b.abs then a
    else
      let e := min x.exponent y.exponent
      let m := x.mantissa * Nat.pow 2 (x.exponent - e).toNat
      let n := y.mantissa * Nat.pow 2 (y.exponent - e).toNat
      let r := (Float.ofNat (m % n)).scaleB e
      if x.negative then -r else r
  | .finite _, .infinite _ => a
  | _, _ => 0.0 / 0.0

/-- The remainder with the sign of the divisor. -/
def floatModulo (a b : Float) : Float :=
  let m := floatRemainder a b
  if m * b < 0.0 then m + b else m

/-- Powers, where a base of one or minus one to no finite exponent is undefined. -/
def floatPower (a b : Float) : Float :=
  if b.isNaN then b
  else if a.abs == 1.0 && !b.isFinite then 0.0 / 0.0
  else a.pow b

/-- Shifts left; a negative distance shifts right, and zeros come in from either side. -/
def shiftLeft (x y : Int32) : Int32 :=
  let bits := x.toUInt32
  let distance := y.toInt
  if distance ≤ -32 || 32 ≤ distance then 0
  else if distance < 0 then (bits >>> (UInt32.ofNat (-distance).toNat)).toInt32
  else (bits <<< (UInt32.ofNat distance.toNat)).toInt32

def shiftRight (x y : Int32) : Int32 :=
  shiftLeft x (if y.toInt = int32Min then 32 else -y)

/-- An operation on two integers that has an integer as its result. -/
def integerArithmetic (op : ArithmeticOp) (a b : Int32) : Except ArithmeticError Int32 :=
  match op with
  | .add => .ok (a + b)
  | .sub => .ok (a - b)
  | .mul => .ok (a * b)
  | .mod =>
    if b = 0 then .error .remainderByZero else .ok (Int32.ofInt (a.toInt.fmod b.toInt))
  | .idiv =>
    if b = 0 then .error .dividedByZero else .ok (Int32.ofInt (a.toInt.fdiv b.toInt))
  | .band => .ok (a &&& b)
  | .bor => .ok (a ||| b)
  | .bxor => .ok (a ^^^ b)
  | .shl => .ok (shiftLeft a b)
  | .shr => .ok (shiftRight a b)
  | .unm => .ok (-a)
  | .bnot => .ok (~~~a)
  | .pow => .ok 0
  | .div => .ok 0

def floatArithmetic (op : ArithmeticOp) (a b : Float) : Float :=
  match op with
  | .add => a + b
  | .sub => a - b
  | .mul => a * b
  | .mod => floatModulo a b
  | .pow => floatPower a b
  | .div => a / b
  | .idiv => (a / b).floor
  | .unm => -a
  | _ => 0.0

/-- The float a value stands for in arithmetic; texts count if they are numerals. -/
def toFloat? : Value → Option Float
  | .int n => some (floatOfInt n)
  | .float x => some x
  | .string s =>
    match Numeral.ofBytes? s with
    | some (.int n) => some (floatOfInt n)
    | some (.float x) => some x
    | _ => none
  | _ => none

/-- The integer a value stands for, if it is one exactly. -/
def toInteger? : Value → Option Int32
  | .int n => some n
  | .float x => integerOfFloat? x
  | .string s =>
    match Numeral.ofBytes? s with
    | some (.int n) => some n
    | some (.float x) => integerOfFloat? x
    | _ => none
  | _ => none

inductive ArithmeticResult where
  | value (v : Value)
  | error (e : ArithmeticError)
  /-- The operands are not numbers, or not integers where integers are needed. -/
  | unsuitable

/-- An operation without metamethods. Integers stay integers; a text among the operands makes the
result a float. -/
def arithmetic (op : ArithmeticOp) (a b : Value) : ArithmeticResult :=
  if op.isBitwise then
    match toInteger? a, toInteger? b with
    | some x, some y =>
      match integerArithmetic op x y with
      | .ok n => .value (.int n)
      | .error e => .error e
    | _, _ => .unsuitable
  else
    match op.isFloatOnly, a, b with
    | false, .int x, .int y =>
      match integerArithmetic op x y with
      | .ok n => .value (.int n)
      | .error e => .error e
    | _, _, _ =>
      match toFloat? a, toFloat? b with
      | some x, some y => .value (.float (floatArithmetic op x y))
      | _, _ => .unsuitable

/-- The order of byte strings, byte by byte. -/
def bytesLess (a b : Bytes) : Bool := a.toList < b.toList

def bytesLessEq (a b : Bytes) : Bool := !bytesLess b a

/-- `a < b` for two numbers or two texts. -/
def lessThan? : Value → Value → Option Bool
  | .int a, .int b => some (a < b)
  | .int a, .float b => some (floatOfInt a < b)
  | .float a, .int b => some (a < floatOfInt b)
  | .float a, .float b => some (a < b)
  | .string a, .string b => some (bytesLess a b)
  | _, _ => none

def lessEqual? : Value → Value → Option Bool
  | .int a, .int b => some (a ≤ b)
  | .int a, .float b => some (floatOfInt a ≤ b)
  | .float a, .int b => some (a ≤ floatOfInt b)
  | .float a, .float b => some (a ≤ b)
  | .string a, .string b => some (bytesLessEq a b)
  | _, _ => none

end LuaHost.Guest
