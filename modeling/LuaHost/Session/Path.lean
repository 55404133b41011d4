import LuaHost.Guest.Program
/-!
Walking along a path of keys from the global table. A walk is a function that the guest machine runs,
so that metamethods apply on the way and may fail.
-/

namespace LuaHost.Path

open Guest

/-- Says that there is no room for a path. -/
def tooLong : String := "stack overflow (key path too long)"

def reserve (count : Nat) : Act Unit := do
  if !(← Act.reserve count) then Act.raise (ofText tooLong)

def globals : Act Value := Act.query fun s => .table s.globals

/-- Follows keys from a value; there is nothing behind a value that is no table, and nil is nothing. -/
def follow : List String → Value → Act (List Value)
  | [], v => pure (if v.isNil then [] else [v])
  | key :: rest, v =>
    match v with
    | .table _ => do follow rest (← Act.index v (ofText key))
    | _ => pure []

/-- Finds the value at the end of a path, if there is one. -/
def lookup (keys : List String) : Program := Act.toProgram do
  reserve (keys.length + 1)
  follow keys (← globals)

/-- What was found in the way of an assignment: the number of keys up to there, and the type. -/
structure Collision where
  length : Nat
  observed : String
  deriving Repr, DecidableEq, Inhabited

namespace Collision

def toValues (c : Collision) : List Value := [.int (Int32.ofNat c.length), ofText c.observed]

def ofValues? : List Value → Option Collision
  | [.int n, .string observed] => some ⟨n.toInt.toNat, Text.decode observed⟩
  | _ => none

end Collision

/-- Follows all keys but the last and assigns there; tables that are missing are made on the way.
`passed` keys have been followed so far. -/
def assignFrom (value : Act Value) : List String → Nat → Value → Act (List Value)
  | [], _, _ => pure []
  | [key], _, target => do
    Act.setIndex target (ofText key) (← value)
    return []
  | key :: rest, passed, target => do
    let v ← Act.index target (ofText key)
    match v with
    | .nil =>
      let made ← Act.newTable {}
      Act.setIndex target (ofText key) made
      assignFrom value rest (passed + 1) made
    | .table _ => assignFrom value rest (passed + 1) v
    | _ => return Collision.toValues ⟨passed + 1, v.typeName⟩

/-- Assigns at the end of a path; gives a collision back if there is one. -/
def assign (keys : List String) (value : Act Value) : Program := Act.toProgram do
  reserve (keys.length + 3)
  assignFrom value keys 0 (← globals)

end LuaHost.Path
