import LuaHost.Decimal.Notation
import LuaHost.Text.Quoted
/-!
Guest values as the host holds them. Primitives are copies. A table, function, userdata or thread
stays in the guest; the host holds a handle to it, which it may give back.
-/

namespace LuaHost

/-- A handle to a guest object: the number of the session that issued it, and its own number there. -/
structure Handle where
  session : Nat
  index : Nat
  deriving Repr, DecidableEq, Inhabited

/-- The kinds of objects that live in the guest only. -/
inductive CompositeKind where
  | table
  | function
  | userdata
  | thread
  deriving Repr, DecidableEq, Inhabited

inductive Datum where
  | nil
  | bool (b : Bool)
  | int (n : Int)
  | float (x : Float)
  | string (s : String)
  | composite (kind : CompositeKind) (handle : Handle)
  deriving Repr, Inhabited

namespace CompositeKind

def name : CompositeKind → String
  | table => "table"
  | function => "function"
  | userdata => "userdata"
  | thread => "thread"

end CompositeKind

namespace Datum

/-- The kind of a value, integers and floats apart. -/
def kind : Datum → String
  | nil => "nil"
  | bool _ => "bool"
  | int _ => "int"
  | float _ => "float"
  | string _ => "string"
  | composite k _ => k.name

/-- The guest's own name for the type of a value. -/
def guestType : Datum → String
  | nil => "nil"
  | bool _ => "boolean"
  | int _ => "number"
  | float _ => "number"
  | string _ => "string"
  | composite k _ => k.name

def isComposite : Datum → Bool
  | composite .. => true
  | _ => false

def isNil : Datum → Bool
  | nil => true
  | _ => false

def handle? : Datum → Option Handle
  | composite _ h => some h
  | _ => none

def boolText (b : Bool) : String := if b then "true" else "false"

/-- A short description for messages; text is quoted. -/
def describe : Datum → String
  | nil => "nil"
  | bool b => boolText b
  | int n => toString n
  | float x => Decimal.hostText x
  | string s => Text.quoted s
  | composite k _ => "<" ++ k.name ++ ">"

def floatOutput (x : Float) : String :=
  match Decimal.shape x with
  | .nan => "nan"
  | .infinite negative => if negative then "-inf" else "inf"
  | .finite b =>
    let text := Decimal.hostText x
    if b.mantissa * Nat.pow 2 b.exponent.toNat % Nat.pow 2 (-b.exponent).toNat = 0 then text ++ ".0"
    else text

/-- The text of a value on the command line; a float that is whole keeps `.0`. -/
def output : Datum → String
  | nil => "nil"
  | bool b => boolText b
  | int n => toString n
  | float x => floatOutput x
  | string s => s
  | composite k _ => "[" ++ k.name ++ "]"

end Datum

/-- A value other than nil, held to be given back to the guest. -/
structure Reference where
  target : Datum
  deriving Repr, Inhabited

end LuaHost
