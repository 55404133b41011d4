import LuaHost.Guest.Program
/-!
What library functions ask of their arguments. Numbers and texts stand for each other where the other
kind is wanted and the text is a numeral; a number that has to be whole is not rounded.
-/

namespace LuaHost.Guest

abbrev Arguments := Array Value

namespace Arguments

variable (args : Arguments)

/-- The argument at a place counted from one, if it was given. -/
def get? (n : Nat) : Option Value := args[n - 1]?

def get (n : Nat) : Value := args.getD (n - 1) .nil

def isNone (n : Nat) : Bool := args.size < n

def isNoneOrNil (n : Nat) : Bool := (args.get n).isNil

/-- The type of an argument, as complaints name it. -/
def typeText (s : Store) (n : Nat) : Bytes :=
  match args.get? n with
  | none => Text.encode "no value"
  | some v =>
    match s.metafield v Event.name with
    | .string name => name
    | _ =>
      match v with
      | .light _ => Text.encode "light userdata"
      | _ => Text.encode v.typeName

variable {α : Type}

def wrongType (n : Nat) (expected : String) : Act α := do
  let got ← Act.query fun s => args.typeText s n
  fun _ => .badArgument n (Text.encode (expected ++ " expected, got ") ++ got)

def any (n : Nat) : Act Value :=
  match args.get? n with
  | some v => pure v
  | none => Act.badArgument n "value expected"

def table (n : Nat) : Act Nat :=
  match args.get? n with
  | some (.table id) => pure id
  | _ => args.wrongType n "table"

def function (n : Nat) : Act Value :=
  let v := args.get n
  if v.isFunction then pure v else args.wrongType n "function"

def thread (n : Nat) : Act Nat :=
  match args.get? n with
  | some (.thread id) => pure id
  | _ => Act.badArgument n "thread expected"

def number (n : Nat) : Act Float :=
  match toFloat? (args.get n) with
  | some x => pure x
  | none => args.wrongType n "number"

def int (n : Nat) : Act Int32 :=
  let v := args.get n
  match toInteger? v with
  | some i => pure i
  | none =>
    if (toFloat? v).isSome then Act.badArgument n "number has no integer representation"
    else args.wrongType n "number"

def optInt (n : Nat) (other : Int32) : Act Int32 :=
  if args.isNoneOrNil n then pure other else args.int n

/-- A text, or a number as a text. -/
def text? (v : Value) : Option Bytes :=
  match v with
  | .string s => some s
  | .int _ => some (Text.encode (Numeral.text v))
  | .float _ => some (Text.encode (Numeral.text v))
  | _ => none

def string (n : Nat) : Act Bytes :=
  match text? (args.get n) with
  | some s => pure s
  | none => args.wrongType n "string"

def optString (n : Nat) (other : Bytes) : Act Bytes :=
  if args.isNoneOrNil n then pure other else args.string n

end Arguments

namespace Act

def require (ok : Bool) (n : Nat) (message : String) : Act Unit :=
  if ok then pure () else badArgument n message

/-- What tells objects of one kind apart in their texts. -/
def objectNumber (s : Store) : Value → Nat
  | .table id => (s.table id).serial
  | .closure id => id
  | .host id => id
  | .userdata id => id
  | .light id => id
  | .thread id => id
  | _ => 0

def objectText (kind : Bytes) (v : Value) : Act Bytes := do
  let number ← query fun s => objectNumber s v
  return kind ++ Text.encode (": 0x" ++ String.ofList (Nat.toDigits 16 number))

/-- The text of any value; a metatable may give one. -/
def tostring (v : Value) : Act Bytes := do
  let handler ← metafield v Event.toString
  if !handler.isNil then
    match Arguments.text? ((← call handler [v]).headD .nil) with
    | some s => return s
    | none => fail "'__tostring' must return a string"
  else
    match v with
    | .nil => return Text.encode "nil"
    | .bool b => return Text.encode (if b then "true" else "false")
    | .string s => return s
    | .int _ => return Text.encode (Numeral.text v)
    | .float _ => return Text.encode (Numeral.text v)
    | _ =>
      let named ← metafield v Event.name
      match named with
      | .string s => objectText s v
      | _ => objectText (Text.encode v.typeName) v

/-- The length that table functions work with. -/
def wholeLength (v : Value) : Act Int32 := do
  match toInteger? (← length v) with
  | some n => return n
  | none => fail "object length is not an integer"

end Act

end LuaHost.Guest
