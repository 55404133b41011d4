/-!
The position a guest message starts with: everything before the first `:digits: ` is the name of a
chunk, and the digits are a line in it.
-/

namespace LuaHost.Text

structure Location where
  chunkName : String
  line : Nat
  deriving Repr, DecidableEq, Inhabited

namespace Location

def isDigit (c : Char) : Bool := '0' ≤ c && c ≤ '9'

def number (ds : List Char) : Nat :=
  ds.foldl (fun n c => 10 * n + (c.toNat - '0'.toNat)) 0

/-- The line of a position mark `:digits: ` at the very start of a text. -/
def mark? : List Char → Option Nat
  | ':' :: rest =>
    let digits := rest.takeWhile isDigit
    match digits, rest.dropWhile isDigit with
    | _ :: _, ':' :: ' ' :: _ => some (number digits)
    | _, _ => none
  | _ => none

/-- The text before the first position mark, and its line. -/
def split? : List Char → Option (List Char × Nat)
  | [] => none
  | c :: rest =>
    match mark? (c :: rest) with
    | some line => some ([], line)
    | none => (split? rest).map fun (name, line) => (c :: name, line)

/-- Where a guest message says it happened. -/
def ofMessage? (message : String) : Option Location :=
  (split? message.toList).map fun (name, line) => ⟨String.ofList name, line⟩

/-- The line as the host is told it, which is a double. -/
def hostLine (l : Location) : Float := Float.ofNat l.line

end Location

end LuaHost.Text
