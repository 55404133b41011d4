/-!
Reading bytes as UTF-8 for the host: each part that is not well formed is replaced, and a part extends as far
as it could still have become a character.
-/

namespace LuaHost.Text.Replacement

/-- How a sequence goes on after its first byte: the bits it starts with, the number of bytes that follow,
and the range of the first of them. -/
structure Lead where
  bits : Nat
  count : Nat
  low : UInt8 := 0x80
  high : UInt8 := 0xbf
  deriving Repr, Inhabited

def lead? (b : UInt8) : Option Lead :=
  if b < 0xc2 || b > 0xf4 then none
  else if b ≤ 0xdf then some { bits := b.toNat - 0xc0, count := 1 }
  else if b == 0xe0 then some { bits := 0, count := 2, low := 0xa0 }
  else if b == 0xed then some { bits := 0xd, count := 2, high := 0x9f }
  else if b ≤ 0xef then some { bits := b.toNat - 0xe0, count := 2 }
  else if b == 0xf0 then some { bits := 0, count := 3, low := 0x90 }
  else if b == 0xf4 then some { bits := 4, count := 3, high := 0x8f }
  else some { bits := b.toNat - 0xf0, count := 3 }

def replacement : Char := '\ufffd'

/-- Reads characters; `open?` is the sequence that has been begun. -/
def read : List UInt8 → Option Lead → List Char → List Char
  | [], none, done => done.reverse
  | [], some _, done => (replacement :: done).reverse
  | b :: rest, some l, done =>
    if l.low ≤ b && b ≤ l.high then
      let bits := l.bits * 64 + (b.toNat - 0x80)
      if l.count ≤ 1 then read rest none (Char.ofNat bits :: done)
      else read rest (some { bits, count := l.count - 1 }) done
    else start b rest (replacement :: done)
  | b :: rest, none, done => start b rest done
where
  start (b : UInt8) (rest : List UInt8) (done : List Char) : List Char :=
    if b < 0x80 then read rest none (Char.ofNat b.toNat :: done)
    else
      match lead? b with
      | some l => read rest (some l) done
      | none => read rest none (replacement :: done)

end Replacement

/-- The text that bytes come to. -/
def ofBytes (bytes : ByteArray) : String := String.ofList (Replacement.read bytes.toList none [])

end LuaHost.Text
