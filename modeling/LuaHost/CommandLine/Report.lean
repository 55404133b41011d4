import LuaHost.Failure.Wording
/-!
What the command line shows at the end of a run: the text of an error, or an exit status and a
message taken from the values that a script returned.
-/

namespace LuaHost.CommandLine

structure Exit where
  code : Nat
  message : Option String
  deriving Repr, DecidableEq

/-- Success unless the first value is nil, false or an integer; integers from 0 to 255 count as they
are, all others as 1. -/
def exitCode : List Datum → Nat
  | [] => 0
  | .nil :: _ => 1
  | .bool b :: _ => if b then 0 else 1
  | .int n :: _ => if 0 ≤ n ∧ n ≤ 255 then n.toNat else 1
  | _ => 0

/-- The second value, if it is a text that is not empty. -/
def exitMessage : List Datum → Option String
  | _ :: .string s :: _ => if s.isEmpty then none else some s
  | _ => none

def Exit.ofValues (values : List Datum) : Exit := ⟨exitCode values, exitMessage values⟩

/-- The line for the values of a script that has no message of its own. -/
def valuesLine (values : List Datum) : String :=
  "\t".intercalate (values.map Datum.output)

/-- The code by which a failure to read tells that there is no such file. -/
def noSuchFile : String := "ENOENT"

def faultReport (fault : Fault) : String :=
  let message := fault.message
  match fault with
  | .syntaxError .. => "Syntax error: " ++ message
  | .runtime _ _ _ traceback .. =>
    match traceback with
    | some t => "Runtime error: " ++ message ++ "\n" ++ t
    | none => "Runtime error: " ++ message
  | .io path _ cause =>
    match cause with
    | .exception e => if e.code = some noSuchFile then "File not found: " ++ path else message
    | _ => message
  | f => f.id ++ ": " ++ message

/-- The text shown for whatever ended a run. -/
def report : Thrown → String
  | .failure _ fault => faultReport fault
  | .exception e => e.message
  | .value d => (d.text?).getD ""

end LuaHost.CommandLine
