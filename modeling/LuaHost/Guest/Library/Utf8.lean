import LuaHost.Guest.Library.Strings
/-!
Code points in texts that are encoded as UTF-8.
-/

namespace LuaHost.Guest.Library

variable (args : Arguments)

def isContinuation (b : UInt8) : Bool := b &&& 0xc0 == 0x80

def continuesAt (s : Bytes) (i : Nat) : Bool := (byteAt? s i).any isContinuation

/-- The bytes of a code point, whether it is a character or not. -/
def encodePoint (n : Nat) : List UInt8 :=
  let tail (shift : Nat) : UInt8 := UInt8.ofNat (0x80 + n / Nat.pow 2 shift % 64)
  if n < 0x80 then [UInt8.ofNat n]
  else if n < 0x800 then [UInt8.ofNat (0xc0 + n / 64), tail 0]
  else if n < 0x10000 then [UInt8.ofNat (0xe0 + n / 4096), tail 6, tail 0]
  else [UInt8.ofNat (0xf0 + n / 262144), tail 12, tail 6, tail 0]

/-- The bytes that follow a first byte, and the least code point that needs so many. -/
def shape? (lead : UInt8) : Option (Nat × Nat × Nat) :=
  let n := lead.toNat
  if n < 0x80 then some (0, n, 0)
  else if n < 0xc0 then none
  else if n < 0xe0 then some (1, n - 0xc0, 0x80)
  else if n < 0xf0 then some (2, n - 0xe0, 0x800)
  else if n < 0xf8 then some (3, n - 0xf0, 0x10000)
  else none

/-- The code point at a place and the place after it; nothing if it is not well formed. -/
def decodePoint? (s : Bytes) (i : Nat) : Option (Nat × Nat) := do
  let lead ← byteAt? s i
  let (count, start, least) ← shape? lead
  let rec go : Nat → Nat → Nat → Option Nat
    | 0, _, value => some value
    | n + 1, j, value => do
      let b ← byteAt? s j
      if isContinuation b then go n (j + 1) (value * 64 + (b.toNat - 0x80)) else none
  let value ← go count (i + 1) start
  if value < least || value > 0x10ffff then none else some (value, i + 1 + count)

def utf8Char : Act (List Value) := do
  let bytes ← (List.range args.size).mapM fun i => do
    let c ← args.int (i + 1)
    Act.require (0 ≤ c && c.toInt ≤ 0x10ffff) (i + 1) "value out of range"
    return encodePoint c.toNatClampNeg
  return [.string ⟨bytes.flatten.toArray⟩]

def utf8Len : Act (List Value) := do
  let s ← args.string 1
  let first := place (← args.optInt 2 1) s.size
  let last := place (← args.optInt 3 (-1)) s.size
  Act.require (1 ≤ first && first - 1 ≤ s.size) 2 "initial position out of string"
  Act.require (last - 1 < s.size) 3 "final position out of string"
  let rec go : Nat → Nat → Nat → List Value
    | 0, _, n => [.int (Int32.ofNat n)]
    | fuel + 1, i, n =>
      if (i : Int) ≤ last - 1 then
        match decodePoint? s i with
        | some (_, next) => go fuel next (n + 1)
        | none => [.nil, .int (Int32.ofNat (i + 1))]
      else [.int (Int32.ofNat n)]
  return go (s.size + 1) (first - 1).toNat 0

def utf8Codepoint : Act (List Value) := do
  let s ← args.string 1
  let first := place (← args.optInt 2 1) s.size
  let last := place (← args.optInt 3 (Int32.ofInt first)) s.size
  Act.require (first ≥ 1) 2 "out of range"
  Act.require (last ≤ s.size) 3 "out of range"
  let rec go : Nat → Nat → List Value → Except String (List Value)
    | 0, _, found => .ok found.reverse
    | fuel + 1, i, found =>
      if (i : Int) < last then
        match decodePoint? s i with
        | some (c, next) => go fuel next (.int (Int32.ofNat c) :: found)
        | none => .error "invalid UTF-8 code"
      else .ok found.reverse
  if first > last then return []
  else orFail (go (s.size + 1) (first - 1).toNat [])

/-- Moves from a place over continuation bytes, back or forth. -/
def skip (s : Bytes) (step : Int) : Nat → Int → Int
  | 0, i => i
  | fuel + 1, i => if continuesAt s i.toNat && i ≥ 0 then skip s step fuel (i + step) else i

/-- The start of the `n`-th character before a place, or nothing. -/
def back (s : Bytes) : Nat → Int → Option Int
  | 0, i => some i
  | n + 1, i => if i > 0 then back s n (max 0 (skip s (-1) s.size (i - 1))) else none

def forth (s : Bytes) : Nat → Int → Option Int
  | 0, i => some i
  | n + 1, i => if i < s.size then forth s n (skip s 1 s.size (i + 1)) else none

def utf8Offset : Act (List Value) := do
  let s ← args.string 1
  let n := (← args.int 2).toInt
  let start : Int := if n ≥ 0 then 1 else s.size + 1
  let i := place (← args.optInt 3 (Int32.ofInt start)) s.size
  Act.require (1 ≤ i && i - 1 ≤ s.size) 3 "position out of range"
  let i := i - 1
  if n == 0 then return [.int (Int32.ofInt (max 0 (skip s (-1) s.size i) + 1))]
  else if continuesAt s i.toNat then Act.fail "initial position is a continuation byte"
  else
    let found := if n < 0 then back s (-n).toNat i else forth s (n - 1).toNat i
    return [match found with
      | some i => .int (Int32.ofInt (i + 1))
      | none => .nil]

def utf8Codes : Act (List Value) := do
  let s ← args.string 1
  return [.builtin .utf8CodesStep, .string s, .int 0]

def utf8CodesStep : Act (List Value) := do
  let s ← args.string 1
  let n := (← args.int 2).toInt - 1
  let i : Int := if n < 0 then 0 else if n < s.size then skip s 1 s.size (n + 1) else n
  if i ≥ s.size then return []
  else
    match decodePoint? s i.toNat with
    | none => Act.fail "invalid UTF-8 code"
    | some (c, next) =>
      if continuesAt s next then Act.fail "invalid UTF-8 code"
      else return [.int (Int32.ofInt (i + 1)), .int (Int32.ofNat c)]

end LuaHost.Guest.Library
