/-!
Guest strings are bytes, host strings are text. Text is encoded as UTF-8; bytes are read as UTF-8
and repaired where they are not. Bytes that are valid come back unchanged; nothing is claimed of the
others beyond the rule of `next`.
-/

namespace LuaHost.Text

/-- The bytes of a text. -/
def encode (s : String) : ByteArray := s.toUTF8

namespace Repair

/-- What stands for bytes that are not UTF-8. -/
def replacement : Nat := 0xfffd

def isContinuation (b : UInt8) : Bool := b &&& 0xc0 == 0x80

def tail (b : UInt8) : Nat := (b &&& 0x3f).toNat

/-- The length of a sequence by its first byte; none for a byte that starts no sequence. -/
def sequenceLength (lead : UInt8) : Option Nat :=
  if lead < 0x80 then some 1
  else if lead < 0xc2 || lead > 0xf4 then none
  else if lead ≤ 0xdf then some 2
  else if lead ≤ 0xef then some 3
  else some 4

/-- Reads `count` continuation bytes; `none` with what follows the first byte that is not one. -/
def continuations : Nat → Nat → List UInt8 → Option Nat × List UInt8
  | 0, value, rest => (some value, rest)
  | _ + 1, _, [] => (none, [])
  | n + 1, value, b :: rest =>
    if isContinuation b then continuations n (value * 64 + tail b) rest else (none, rest)

theorem continuations_length_le (n value : Nat) (bs : List UInt8) :
    (continuations n value bs).2.length ≤ bs.length := by
  induction n generalizing value bs with
  | zero => simp [continuations]
  | succ n ih =>
    cases bs with
    | nil => simp [continuations]
    | cons b rest =>
      simp only [continuations]
      split
      · exact Nat.le_succ_of_le (ih ..)
      · simp

/-- One code point and the bytes after it. A wrong continuation byte is used up together with the
bytes before it; a sequence cut off by the end of the string loses its first byte only. -/
def next (lead : UInt8) (rest : List UInt8) : Nat × List UInt8 :=
  match sequenceLength lead with
  | none => (replacement, rest)
  | some 1 => (lead.toNat, rest)
  | some n =>
    if rest.length < n - 1 then (replacement, rest)
    else
      let bits := lead.toNat % Nat.pow 2 (7 - n)
      match continuations (n - 1) bits rest with
      | (some value, rest) => (value, rest)
      | (none, rest) => (replacement, rest)

theorem next_length_le (lead : UInt8) (rest : List UInt8) :
    (next lead rest).2.length ≤ rest.length := by
  unfold next
  split
  · exact Nat.le_refl _
  · exact Nat.le_refl _
  · rename_i n _ _
    have bound := continuations_length_le (n - 1) (lead.toNat % Nat.pow 2 (7 - n)) rest
    dsimp only
    split
    · exact Nat.le_refl _
    · split <;> rename_i h <;> rw [h] at bound <;> exact bound

/-- The code points of a byte string, each number below `0x110000` or a lone surrogate's. -/
def codePoints : List UInt8 → List Nat
  | [] => []
  | lead :: rest =>
    let step := next lead rest
    step.1 :: codePoints step.2
termination_by bs => bs.length
decreasing_by simpa using Nat.lt_succ_of_le (next_length_le lead rest)

def isHighSurrogate (n : Nat) : Bool := 0xd800 ≤ n && n < 0xdc00

def isLowSurrogate (n : Nat) : Bool := 0xdc00 ≤ n && n < 0xe000

/-- Joins surrogate pairs; a number that is no character becomes the replacement. -/
def characters : List Nat → List Char
  | [] => []
  | high :: low :: rest =>
    if isHighSurrogate high && isLowSurrogate low then
      Char.ofNat ((high - 0xd800) * 0x400 + (low - 0xdc00) + 0x10000) :: characters rest
    else
      character high :: characters (low :: rest)
  | [n] => [character n]
where
  character (n : Nat) : Char :=
    if n.isValidChar then Char.ofNat n else Char.ofNat replacement

end Repair

/-- The text of a byte string. -/
def decode (bytes : ByteArray) : String :=
  match String.fromUTF8? bytes with
  | some s => s
  | none => String.ofList (Repair.characters (Repair.codePoints bytes.toList))

/-- A text is read off its own bytes. -/
@[simp] theorem decode_encode (s : String) : decode (encode s) = s := by
  have valid : s.toUTF8.IsValidUTF8 := s.isValidUTF8
  have read : String.fromUTF8? s.toUTF8 = some s := by
    rw [String.fromUTF8?, dif_pos valid]
    rfl
  simp only [decode, encode, read]

theorem encode_inj {s t : String} (same : encode s = encode t) : s = t := by
  rw [← decode_encode s, same, decode_encode]

end LuaHost.Text
