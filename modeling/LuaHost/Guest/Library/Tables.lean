import LuaHost.Guest.Library.Arguments
/-!
Sequences: joining, inserting, removing, moving, sorting. Anything whose metatable says how it is read,
written and measured counts as a sequence.
-/

namespace LuaHost.Guest.Library

variable (args : Arguments)

/-- A table, or a value whose metatable has all of the given fields. -/
def sequence (n : Nat) (needed : List Value) : Act Value := do
  match args.get n with
  | .table t => return .table t
  | v =>
    let fields ← needed.mapM fun event => Act.metafield v event
    if fields.all fun f => !f.isNil then return v
    else
      let t ← args.table n
      return .table t

def sequenceLength (n : Nat) (needed : List Value) : Act Int32 := do
  let v ← sequence args n (needed ++ [Event.len])
  Act.wholeLength v

def getIndex (v : Value) (i : Int) : Act Value := Act.index v (.int (Int32.ofInt i))

def setIndexTo (v : Value) (i : Int) (x : Value) : Act Unit := Act.setIndex v (.int (Int32.ofInt i)) x

/-- Runs `body` for `count` numbers from `first` on. -/
def forUp (body : Int → Act Unit) : Nat → Int → Act Unit
  | 0, _ => pure ()
  | count + 1, first => do
    body first
    forUp body count (first + 1)

/-- Runs `body` for `count` numbers from `first` downwards. -/
def forDown (body : Int → Act Unit) : Nat → Int → Act Unit
  | 0, _ => pure ()
  | count + 1, first => do
    body first
    forDown body count (first - 1)

/-- The number of integers from `first` to `last`. -/
def distance (first last : Int) : Nat := (last - first + 1).toNat

def joinItems (v : Value) (separator : Bytes) (last : Int) : Nat → Int → Bytes → Act Bytes
  | 0, _, done => pure done
  | count + 1, i, done => do
    let item ← getIndex v i
    match Arguments.text? item with
    | none =>
      Act.fail ("invalid value (" ++ item.typeName ++ ") at index " ++ toString i
        ++ " in table for 'concat'")
    | some s =>
      let done := done ++ s
      joinItems v separator last count (i + 1) (if i < last then done ++ separator else done)

def tableConcat : Act (List Value) := do
  let n ← sequenceLength args 1 [Event.index]
  let separator ← args.optString 2 ByteArray.empty
  let first ← args.optInt 3 1
  let last ← args.optInt 4 n
  let count := distance first.toInt last.toInt
  return [.string (← joinItems (args.get 1) separator last.toInt count first.toInt ByteArray.empty)]

def readWrite : List Value := [Event.index, Event.newIndex]

def tableInsert : Act (List Value) := do
  let e := (← sequenceLength args 1 readWrite).toInt + 1
  let t := args.get 1
  match args.size with
  | 2 =>
    setIndexTo t e (args.get 2)
    return []
  | 3 =>
    let i := (← args.int 2).toInt
    Act.require (1 ≤ i && i ≤ e) 2 "position out of bounds"
    forDown (fun j => do setIndexTo t j (← getIndex t (j - 1))) (distance (i + 1) e) e
    setIndexTo t i (args.get 3)
    return []
  | _ => Act.fail "wrong number of arguments to 'insert'"

def tableRemove : Act (List Value) := do
  let size := (← sequenceLength args 1 readWrite).toInt
  let t := args.get 1
  let i := (← args.optInt 2 (Int32.ofInt size)).toInt
  if !args.isNoneOrNil 2 && i != size then
    Act.require (1 ≤ i && i ≤ size + 1) 1 "position out of bounds"
  let removed ← getIndex t i
  forUp (fun j => do setIndexTo t j (← getIndex t (j + 1))) (distance i (size - 1)) i
  setIndexTo t (max i size) .nil
  return [removed]

def tableMove : Act (List Value) := do
  let first := (← args.int 2).toInt
  let last := (← args.int 3).toInt
  let target := (← args.int 4).toInt
  let source ← sequence args 1 [Event.index]
  let place := if args.isNoneOrNil 5 then 1 else 5
  let goal ← sequence args place [Event.newIndex]
  if last ≥ first then
    Act.require (first > 0 || last < int32Max + first) 3 "too many elements to move"
    let count := distance first last
    Act.require (target ≤ int32Max - count + 1) 4 "destination wrap around"
    let copy (i : Int) : Act Unit := do
      setIndexTo goal (target + (i - first)) (← getIndex source i)
    if target > last || target ≤ first || (place != 1 && !source.rawEquals goal) then
      forUp copy count first
    else forDown copy count last
  return [goal]

/-- A table of the arguments and their number. -/
def tablePack : Act (List Value) := do
  let count := args.size
  let numbered := (args.toList.zipIdx 1).reverse
  let t := numbered.foldl (fun t (v, i) => Table.setInt t (Int32.ofNat i) v) ({} : Table)
  return [← Act.newTable (t.setText "n" (.int (Int32.ofNat count)))]

def gather (v : Value) : Nat → Int → List Value → Act (List Value)
  | 0, _, found => pure found.reverse
  | count + 1, i, found => do
    gather v count (i + 1) ((← getIndex v i) :: found)

def tableUnpack : Act (List Value) := do
  let v := args.get 1
  let first := (← args.optInt 2 1).toInt
  let last ← if args.isNoneOrNil 3 then Act.wholeLength v else args.int 3
  let count := distance first last.toInt
  if count == 0 then return []
  else if count > int32Max.toNat then Act.fail "too many results to unpack"
  else if ← Act.reserve count then gather v count first []
  else Act.fail "too many results to unpack"

/-! ### Sorting -/

/-- The order that a sort goes by. -/
def sortLess (order : Value) (a b : Value) : Act Bool :=
  if order.isNil then Act.lessThan a b
  else do return ((← Act.call order [a, b]).headD .nil).truthy

def swap (v : Value) (i : Int) (a : Value) (j : Int) (b : Value) : Act Unit := do
  setIndexTo v i a
  setIndexTo v j b

def invalidOrder {α : Type} : Act α := Act.fail "invalid order function for sorting"

/-- Rounds that the loops of a sort may take; more than there are items. -/
def sortRounds : Nat := 4294967296

/-- Moves up to the first item that is not less than the pivot. -/
def scanUp (v order pivot : Value) (bound : Int) : Nat → Int → Act (Int × Value)
  | 0, i => pure (i, .nil)
  | fuel + 1, i => do
    let i := i + 1
    let x ← getIndex v i
    if ← sortLess order x pivot then
      if i == bound then invalidOrder else scanUp v order pivot bound fuel i
    else return (i, x)

/-- Moves down to the first item that is not greater than the pivot. -/
def scanDown (v order pivot : Value) (bound : Int) : Nat → Int → Act (Int × Value)
  | 0, j => pure (j, .nil)
  | fuel + 1, j => do
    let j := j - 1
    let x ← getIndex v j
    if ← sortLess order pivot x then
      if j < bound then invalidOrder else scanDown v order pivot bound fuel j
    else return (j, x)

/-- Divides the items between `low` and `high` by a pivot that is stored just below `high`. -/
def divide (v order pivot : Value) (low high : Int) : Nat → Int → Int → Act Int
  | 0, i, _ => pure i
  | fuel + 1, i, j => do
    let (i, x) ← scanUp v order pivot (high - 1) sortRounds i
    let (j, y) ← scanDown v order pivot i sortRounds j
    if j < i then
      swap v (high - 1) x i pivot
      return i
    else
      swap v i y j x
      divide v order pivot low high fuel i j

/-- Puts two items into order. -/
def orderPair (v order : Value) (i j : Int) : Act Unit := do
  let x ← getIndex v i
  let y ← getIndex v j
  if ← sortLess order y x then swap v i y j x

def sortRange (v order : Value) : Nat → Int → Int → Act Unit
  | 0, _, _ => pure ()
  | fuel + 1, low, high => do
    if low ≥ high then return
    else
      orderPair v order low high
      if high - low == 1 then return
      else
        let p := (low + high) / 2
        let x ← getIndex v p
        let first ← getIndex v low
        if ← sortLess order x first then swap v p first low x
        else
          let last ← getIndex v high
          if ← sortLess order last x then swap v p last high x
        if high - low == 2 then return
        else
          let pivot ← getIndex v p
          swap v p (← getIndex v (high - 1)) (high - 1) pivot
          let p ← divide v order pivot low high sortRounds low (high - 1)
          if p - low < high - p then
            sortRange v order fuel low (p - 1)
            sortRange v order fuel (p + 1) high
          else
            sortRange v order fuel (p + 1) high
            sortRange v order fuel low (p - 1)

def tableSort : Act (List Value) := do
  let n := (← sequenceLength args 1 readWrite).toInt
  if n > 1 then
    Act.require (n < int32Max) 1 "array too big"
    let order ← if args.isNoneOrNil 2 then pure Value.nil else args.function 2
    sortRange (args.get 1) order n.toNat 1 n
  return []

end LuaHost.Guest.Library
