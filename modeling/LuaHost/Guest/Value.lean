import LuaHost.Text.Utf8
/-!
Guest values. Tables, closures, userdata and threads are numbers into the guest's store; two of them
are the same object exactly if their numbers agree.
-/

namespace LuaHost.Guest

abbrev Bytes := ByteArray

instance : DecidableEq Bytes := ByteArray.instDecidableEq

def byteAt? (b : Bytes) (i : Nat) : Option UInt8 :=
  if h : i < b.size then some b[i] else none

/-- The functions of the guest's standard libraries. -/
inductive Builtin where
  | assert | collectgarbage | dofile | error | getmetatable | ipairs | ipairsStep | load | loadfile
  | next | pairs | pcall | print | rawequal | rawget | rawlen | rawset | select | setmetatable
  | tonumber | tostring | type | xpcall
  | coCreate | coIsYieldable | coResume | coRunning | coStatus | coWrap | coYield
  | tableConcat | tableInsert | tableMove | tablePack | tableRemove | tableSort | tableUnpack
  | strByte | strChar | strFind | strFormat | strGmatch | strGsub | strLen | strLower | strMatch
  | strRep | strReverse | strSub | strUpper
  | utf8Char | utf8Codepoint | utf8Codes | utf8CodesStep | utf8Len | utf8Offset
  | mathAbs | mathAcos | mathAsin | mathAtan | mathCeil | mathCos | mathDeg | mathExp | mathFloor
  | mathFmod | mathLog | mathMax | mathMin | mathModf | mathRad | mathSin | mathSqrt | mathTan
  | mathTointeger | mathType | mathUlt
  | debugGetinfo | debugGetmetatable | debugSetmetatable | debugTraceback
  | packageSearchpath | packageSearchPreload | packageSearchSource | packageSearchNative | require
  | hostErrorToString
  /-- A function that has its place in a library and cannot be called: it would need time, chance,
  files or the insides of other functions. -/
  | unavailable (name : String)
  deriving DecidableEq, Hashable, Repr, Inhabited

inductive Value where
  | nil
  | bool (b : Bool)
  | int (n : Int32)
  | float (x : Float)
  | string (s : Bytes)
  | table (id : Nat)
  | closure (id : Nat)
  | builtin (f : Builtin)
  | host (index : Nat)
  | userdata (id : Nat)
  | light (payload : Nat)
  | thread (id : Nat)
  deriving Inhabited

/-- A value as it counts when a table is searched: a float that is a 32-bit integer is that integer. -/
inductive Key where
  | bool (b : Bool)
  | int (n : Int32)
  | float (bits : UInt64)
  | string (s : Bytes)
  | table (id : Nat)
  | closure (id : Nat)
  | builtin (f : Builtin)
  | host (index : Nat)
  | userdata (id : Nat)
  | light (payload : Nat)
  | thread (id : Nat)
  deriving DecidableEq, Hashable, Inhabited

def ofText (s : String) : Value := .string (Text.encode s)

/-- The whole number a float denotes, if it is one. -/
def wholeOfFloat? (x : Float) : Option Int :=
  let magnitude := x.abs.toUInt64
  if magnitude.toFloat == x.abs && magnitude < 9007199254740992 then
    some (if x < 0 then -(magnitude.toNat : Int) else magnitude.toNat)
  else none

def int32Min : Int := -2147483648
def int32Max : Int := 2147483647

def fitsInt32 (n : Int) : Bool := int32Min ≤ n && n ≤ int32Max

theorem fitsInt32_iff (n : Int) : fitsInt32 n = true ↔ -2147483648 ≤ n ∧ n ≤ 2147483647 := by
  rw [fitsInt32, Bool.and_eq_true, decide_eq_true_iff, decide_eq_true_iff]
  rfl

theorem fitsInt32_toInt (n : Int32) : fitsInt32 n.toInt = true := by
  have low := n.le_toInt
  have high := n.toInt_lt
  rw [fitsInt32_iff]
  omega

/-- The 32-bit integer that a float denotes, if there is one. -/
def integerOfFloat? (x : Float) : Option Int32 :=
  match wholeOfFloat? x with
  | some n => if fitsInt32 n then some (Int32.ofInt n) else none
  | none => none

/-- The double that denotes a whole number below `2 ^ 64`. -/
def floatOfNat (n : Nat) : Float := (UInt64.ofNat n).toFloat

def floatOfInt (n : Int32) : Float :=
  if n.toInt < 0 then -floatOfNat n.toInt.natAbs else floatOfNat n.toInt.natAbs

namespace Value

def isNil : Value → Bool
  | nil => true
  | _ => false

/-- Everything but nil and false counts as true. -/
def truthy : Value → Bool
  | nil => false
  | bool b => b
  | _ => true

def isFunction : Value → Bool
  | closure _ => true
  | builtin _ => true
  | host _ => true
  | _ => false

def typeName : Value → String
  | nil => "nil"
  | bool _ => "boolean"
  | int _ => "number"
  | float _ => "number"
  | string _ => "string"
  | table _ => "table"
  | closure _ => "function"
  | builtin _ => "function"
  | host _ => "function"
  | userdata _ => "userdata"
  | light _ => "userdata"
  | thread _ => "thread"

/-- The key under which a table holds a value; nil and NaN are no keys. -/
def key? : Value → Option Key
  | nil => none
  | bool b => some (.bool b)
  | int n => some (.int n)
  | float x =>
    if x.isNaN then none
    else
      match integerOfFloat? x with
      | some n => some (.int n)
      | none => some (.float x.toBits)
  | string s => some (.string s)
  | table i => some (.table i)
  | closure i => some (.closure i)
  | builtin f => some (.builtin f)
  | host i => some (.host i)
  | userdata i => some (.userdata i)
  | light p => some (.light p)
  | thread i => some (.thread i)

/-- The value a table stores for a key: whole floats in range become integers. -/
def normalized : Value → Value
  | float x =>
    match integerOfFloat? x with
    | some n => .int n
    | none => .float x
  | v => v

/-- Equality without metamethods. -/
def rawEquals : Value → Value → Bool
  | nil, nil => true
  | bool a, bool b => a == b
  | int a, int b => a == b
  | int a, float b => floatOfInt a == b
  | float a, int b => a == floatOfInt b
  | float a, float b => a == b
  | string a, string b => a == b
  | table a, table b => a == b
  | closure a, closure b => a == b
  | builtin a, builtin b => a == b
  | host a, host b => a == b
  | userdata a, userdata b => a == b
  | light a, light b => a == b
  | thread a, thread b => a == b
  | _, _ => false

end Value

end LuaHost.Guest
