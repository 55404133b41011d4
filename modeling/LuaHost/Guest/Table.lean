import LuaHost.Guest.Value
import Std.Data.HashMap
/-!
Tables that remember the order in which their keys were added. Giving a key another value keeps its
place; removing it and adding it again moves it to the end. A traversal may remove keys on its way:
the place of a removed key stays known until a key is added.
-/

namespace LuaHost.Guest

structure Entry where
  key : Value
  /-- The key as it was given: a whole float is kept here with the sign of its zero. -/
  given : Value
  value : Value
  place : Nat
  deriving Inhabited

structure Table where
  index : Std.HashMap Key Entry := {}
  /-- The keys by place; nothing where a key was removed. -/
  order : Array (Option Key) := #[]
  /-- The places of keys removed since the last addition. -/
  removed : Std.HashMap Key Nat := {}
  metatable : Option Nat := none
  /-- The number of the table among all objects, in the order in which they were made. -/
  serial : Nat := 0
  deriving Inhabited

namespace Table

def empty : Table := {}

def size (t : Table) : Nat := t.index.size

def getKey (t : Table) (k : Key) : Value :=
  match t.index[k]? with
  | some e => e.value
  | none => .nil

/-- Reads without metamethods; nothing is found under nil and NaN. -/
def get (t : Table) (key : Value) : Value :=
  match key.key? with
  | some k => t.getKey k
  | none => .nil

def getInt (t : Table) (n : Int32) : Value := t.getKey (.int n)

def getText (t : Table) (name : String) : Value := t.getKey (.string (Text.encode name))

def remove (t : Table) (k : Key) : Table :=
  match t.index[k]? with
  | none => t
  | some e =>
    { t with
      index := t.index.erase k
      order := t.order.setIfInBounds e.place none
      removed := t.removed.insert k e.place }

def insert (t : Table) (k : Key) (key value : Value) : Table :=
  match t.index[k]? with
  | some e => { t with index := t.index.insert k { e with value } }
  | none =>
    { t with
      index := t.index.insert k ⟨key.normalized, key, value, t.order.size⟩
      order := t.order.push (some k)
      removed := {} }

/-- Writes without metamethods under a key that is neither nil nor NaN. -/
def setKey (t : Table) (k : Key) (key value : Value) : Table :=
  if value.isNil then t.remove k else t.insert k key value

def set (t : Table) (key value : Value) : Table :=
  match key.key? with
  | some k => t.setKey k key value
  | none => t

def setText (t : Table) (name : String) (value : Value) : Table :=
  t.set (ofText name) value

def setInt (t : Table) (n : Int32) (value : Value) : Table :=
  t.set (.int n) value

/-- The first entry at or after a place. -/
def entryFrom (t : Table) (place : Nat) : Option Entry :=
  if h : place < t.order.size then
    match t.order[place] with
    | some k =>
      match t.index[k]? with
      | some e => some e
      | none => t.entryFrom (place + 1)
    | none => t.entryFrom (place + 1)
  else none
termination_by t.order.size - place

inductive Next where
  | entry (key value : Value)
  | finished
  | unknownKey

def Next.ofEntry : Option Entry → Next
  | some e => .entry e.key e.value
  | none => .finished

/-- The entry after a key in the order of the traversal; nil asks for the first. -/
def next (t : Table) (key : Value) : Next :=
  if key.isNil then .ofEntry (t.entryFrom 0)
  else
    match key.key? with
    | none => .unknownKey
    | some k =>
      match t.index[k]? with
      | some e => .ofEntry (t.entryFrom (e.place + 1))
      | none =>
        match t.removed[k]? with
        | some place => .ofEntry (t.entryFrom (place + 1))
        | none => .unknownKey

/-- The entries in the order of the traversal. -/
def entries (t : Table) : List Entry :=
  t.order.toList.filterMap fun
    | some k => t.index[k]?
    | none => none

/-- The keys and values in the order of the traversal. -/
def toList (t : Table) : List (Value × Value) := t.entries.map fun e => (e.key, e.value)

def hasIndex (t : Table) (n : Nat) : Bool :=
  !(t.getInt (Int32.ofNat n)).isNil && fitsInt32 n

/-- Doubles `high` until there is nothing at that index. -/
def boundFrom (t : Table) : Nat → Nat → Nat → Nat × Nat
  | 0, low, high => (low, high)
  | fuel + 1, low, high =>
    if t.hasIndex high then t.boundFrom fuel high (2 * high) else (low, high)

/-- Halves the distance between an index that is present, or zero, and one that is absent. -/
def bisect (t : Table) : Nat → Nat → Nat → Nat
  | 0, low, _ => low
  | fuel + 1, low, high =>
    if low + 1 < high then
      let middle := (low + high) / 2
      if t.hasIndex middle then t.bisect fuel middle high else t.bisect fuel low middle
    else low

/-- The length: an index that is present although the next one is not, or zero. -/
def length (t : Table) : Nat :=
  let (low, high) := t.boundFrom 33 0 (t.size + 1)
  t.bisect (high + 1) low high

end Table

end LuaHost.Guest
