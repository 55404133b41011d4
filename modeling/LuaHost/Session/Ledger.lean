import LuaHost.Failure.Wording
/-!
What a session keeps account of: the states it has issued and the one that is its head, the handles to
guest objects, and the chunks compiled for it. Only the head is accepted; every other state of the
session is stale.
-/

namespace LuaHost

/-- A state of a session: each operation takes one and gives its successor. -/
structure State where
  session : Nat
  generation : Nat
  deriving Repr, DecidableEq, Inhabited

/-- What the host hands to the guest: a value, or the value behind a reference. -/
inductive Item where
  | value (d : Datum)
  | reference (r : Reference)
  deriving Repr, Inhabited

namespace Item

/-- The value that the guest receives. -/
def datum : Item → Datum
  | value d => d
  | reference r => r.target

end Item

/-- The slot behind a handle, until it is given back. -/
structure HandleRecord where
  slot : Nat
  released : Bool
  deriving Repr, DecidableEq, Inhabited

structure Ledger where
  /-- The generation of the head. -/
  head : Nat := 0
  /-- The generation issued last. -/
  issued : Nat := 0
  closed : Bool := false
  handles : Array HandleRecord := #[]
  /-- The slots of compiled chunks, by the number of the chunk. -/
  compiled : List (Nat × Nat) := []
  deriving Repr, Inhabited

/-- The accounts of all sessions, by number. -/
abbrev Ledgers := Array Ledger

namespace Ledger

/-- Issues the successor of the head. -/
def advance (l : Ledger) : Ledger := { l with head := l.issued + 1, issued := l.issued + 1 }

/-- Makes an earlier state the head again. -/
def restore (l : Ledger) (generation : Nat) : Ledger := { l with head := generation }

def close (l : Ledger) : Ledger := { l with closed := true }

/-- The slot of a handle that has not been given back. -/
def slot? (l : Ledger) (index : Nat) : Option Nat :=
  match l.handles[index]? with
  | some h => if h.released then none else some h.slot
  | none => none

def isReleased (l : Ledger) (index : Nat) : Bool :=
  match l.handles[index]? with
  | some h => h.released
  | none => false

/-- The number of the next handle. -/
def nextHandle (l : Ledger) : Nat := l.handles.size

def addHandle (l : Ledger) (slot : Nat) : Ledger :=
  { l with handles := l.handles.push ⟨slot, false⟩ }

def releaseHandle (l : Ledger) (index : Nat) : Ledger :=
  { l with handles := l.handles.modify index fun h => { h with released := true } }

/-- The slots in use: one for each handle that has not been given back, and one for each compiled
chunk. -/
def slotsInUse (l : Ledger) : Nat :=
  if l.closed then 0
  else (l.handles.toList.filter fun h => !h.released).length + l.compiled.length

/-- The slot of a chunk that is compiled. Nobody but the chunk knows it. -/
def compiledSlot? (l : Ledger) (chunk : Nat) : Option Nat :=
  (l.compiled.find? (·.1 == chunk)).map (·.2)

def addCompiled (l : Ledger) (chunk slot : Nat) : Ledger :=
  { l with compiled := (chunk, slot) :: l.compiled }

def removeCompiled (l : Ledger) (chunk : Nat) : Ledger :=
  { l with compiled := l.compiled.filter (·.1 != chunk) }

/-- Why a state of this session is turned away. -/
def stateViolation? (l : Ledger) (generation : Nat) : Option Fault :=
  if l.closed then some (.lineage .closed [])
  else if generation != l.head then
    some (.lineage .staleState
      [("generation", .number (Float.ofNat generation)), ("current", .number (Float.ofNat l.head))])
  else none

/-- Why a value cannot be handed to session `id`, whose account this is. -/
def itemViolation? (l : Ledger) (id : Nat) (item : Item) : Option Fault :=
  match item.datum with
  | .composite kind h =>
    if h.session != id then some (.lineage .foreignValue [("kind", .string kind.name)])
    else if l.isReleased h.index then some (.lineage .released [("kind", .string kind.name)])
    else none
  | _ => none

/-- Why one of several values cannot be handed to session `id`; the first reason counts. -/
def claimViolation? (l : Ledger) (id : Nat) (items : List Item) : Option Fault :=
  if l.closed then some (.lineage .closed []) else items.findSome? (l.itemViolation? id)

end Ledger

end LuaHost
