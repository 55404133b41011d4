import LuaHost.Decimal.Notation
import LuaHost.Decimal.Read
/-!
What a YAML document says: a tree of scalars, lists and mappings. Plain scalars stand for null, a truth
value or a number if they are written like one, and for themselves otherwise.
-/

namespace LuaHost.Yaml

inductive Node where
  | null
  | bool (b : Bool)
  | number (x : Float)
  | string (s : String)
  | list (items : List Node)
  | map (entries : List (Node × Node))
  /-- A collection inside itself. -/
  | enclosing
  deriving Inhabited

namespace Node

/-! ### Scalars -/

def isDigit (c : Char) : Bool := '0' ≤ c && c ≤ '9'

def hexValue? (c : Char) : Option Nat :=
  if isDigit c then some (c.toNat - '0'.toNat)
  else if 'a' ≤ c && c ≤ 'f' then some (c.toNat - 'a'.toNat + 10)
  else if 'A' ≤ c && c ≤ 'F' then some (c.toNat - 'A'.toNat + 10)
  else none

/-- The number that digits denote in a base; there has to be one digit at least. -/
def digits? (base : Nat) (cs : List Char) : Option Nat :=
  if cs.isEmpty then none
  else cs.foldl (fun n c => do
    let n ← n
    let d ← hexValue? c
    if d < base then some (n * base + d) else none) (some 0)

def isNull (s : String) : Bool := ["", "~", "null", "Null", "NULL"].contains s

def bool? (s : String) : Option Bool :=
  if ["true", "True", "TRUE"].contains s then some true
  else if ["false", "False", "FALSE"].contains s then some false
  else none

def withoutSign : List Char → List Char
  | '-' :: cs => cs
  | '+' :: cs => cs
  | cs => cs

def infinity : Float := 1.0 / 0.0

/-- Integers are decimal, or octal or hexadecimal without a sign. -/
def integer? (s : String) : Option Float :=
  match s.toList with
  | '0' :: 'o' :: cs => (digits? 8 cs).map Float.ofNat
  | '0' :: 'x' :: cs => (digits? 16 cs).map Float.ofNat
  | cs => if (digits? 10 (withoutSign cs)).isSome then Decimal.number? cs else none

/-- Numbers with a point or an exponent, and the special ones. -/
def real? (s : String) : Option Float :=
  if [".nan", ".NaN", ".NAN"].contains s then some (0.0 / 0.0)
  else if [".inf", ".Inf", ".INF", "+.inf", "+.Inf", "+.INF"].contains s then some infinity
  else if ["-.inf", "-.Inf", "-.INF"].contains s then some (-infinity)
  else if (integer? s).isSome then none
  else Decimal.number? s.toList

/-- The node that a plain scalar stands for. -/
def ofPlain (s : String) : Node :=
  if isNull s then .null
  else
    match bool? s, integer? s, real? s with
    | some b, _, _ => .bool b
    | none, some x, _ => .number x
    | none, none, some x => .number x
    | none, none, none => .string s

/-- The node that a scalar stands for under a tag. A tag that does not fit its scalar counts for
nothing, and the scalar stands for itself. -/
def ofTagged (tag : String) (s : String) : Node :=
  if tag == "null" then (if isNull s then .null else .string s)
  else if tag == "bool" then ((bool? s).map Node.bool).getD (.string s)
  else if tag == "int" then ((integer? s).map Node.number).getD (.string s)
  else if tag == "float" then ((real? s).map Node.number).getD (.string s)
  else .string s

/-! ### Texts -/

/-- Two scalars are the same key if they are equal; collections never are. -/
def sameKey : Node → Node → Bool
  | null, null => true
  | bool a, bool b => a == b
  | number a, number b => a == b
  | string a, string b => a == b
  | _, _ => false

mutual

/-- The name under which a value is kept for a key that is no text. -/
def keyText : Node → String
  | null => ""
  | bool b => if b then "true" else "false"
  | number x => Decimal.hostText x
  | string s => s
  | list items => if items.isEmpty then "[]" else "[ " ++ ", ".intercalate (itemTexts items) ++ " ]"
  | map entries =>
    if entries.isEmpty then "\x7b\x7d"
    else "\x7b " ++ ", ".intercalate (entryTexts entries) ++ " \x7d"
  | enclosing => ""

def itemTexts : List Node → List String
  | [] => []
  | n :: rest => keyText n :: itemTexts rest

def entryTexts : List (Node × Node) → List String
  | [] => []
  | (k, v) :: rest => (keyText k ++ ": " ++ keyText v) :: entryTexts rest

end

/-- The key whose presence keeps a mapping from having a text. -/
def textKey : String := "toString"

mutual

/-- The text of a value in messages, if it has one. -/
def text? : Node → Option String
  | null => some "null"
  | bool b => some (if b then "true" else "false")
  | number x => some (Decimal.hostText x)
  | string s => some s
  | list items => (listTexts? items).map (",".intercalate ·)
  | map entries => if entries.any (keyText ·.1 == textKey) then none else some "[object Object]"
  | enclosing => some ""

/-- In a list, nothing is written for null. -/
def listTexts? : List Node → Option (List String)
  | [] => some []
  | n :: rest => do
    let t ← match n with
      | null => some ""
      | n => text? n
    let ts ← listTexts? rest
    return t :: ts

end

end Node

end LuaHost.Yaml
