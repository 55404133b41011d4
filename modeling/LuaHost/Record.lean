/-!
Records: entries under names that are pairwise distinct. The order of the entries follows from their names
and from the order in which they were added: names that are indices come first, by their number, and
the others follow as they were added.
-/

namespace LuaHost.Record

variable {α : Type}

/-- One more than the largest index. -/
def indexLimit : Nat := 4294967295

def isDigit (c : Char) : Bool := '0' ≤ c && c ≤ '9'

/-- The number that a name stands for, if it is written the one way in which an index is written. -/
def index? (name : String) : Option Nat :=
  let digits := name.toList
  let number := digits.foldl (fun n c => n * 10 + (c.toNat - '0'.toNat)) 0
  if !digits.isEmpty && digits.all isDigit && (digits == ['0'] || digits.head? != some '0')
      && number < indexLimit then some number
  else none

/-- Adds an entry, in the place of an earlier one of the same name. -/
def insert (entries : List (String × α)) (name : String) (x : α) : List (String × α) :=
  if entries.any (·.1 == name) then
    entries.map fun entry => if entry.1 == name then (name, x) else entry
  else entries ++ [(name, x)]

/-- Entries in the order of a record. -/
def arrange (entries : List (String × α)) : List (String × α) :=
  let indexed := entries.filterMap fun entry => (index? entry.1).map fun i => (i, entry)
  (indexed.mergeSort fun a b => a.1 ≤ b.1).map (·.2) ++ entries.filter fun entry => (index? entry.1).isNone

/-- The record with these entries; the last entry of a name counts. -/
def ofEntries (entries : List (String × α)) : List (String × α) :=
  arrange (entries.foldl (fun done entry => insert done entry.1 entry.2) [])

end LuaHost.Record
