import Mathlib
import LuaHost.Text.Replacement
import LuaHost.Text.Utf8
/-!
Which bytes are the bytes of a text. A character is read off its own bytes, whatever follows, so that a text is read
off its bytes; and bytes that are not well formed are read as a text that has other bytes. Guest strings are repaired
in another way, but a text at their start is read off them all the same.
-/

namespace LuaHost.Text

/-- The bytes of a byte string, one after the other. -/
theorem toList_eq_data (bytes : ByteArray) : bytes.toList = bytes.data.toList := by
  have loop (i : Nat) (done : List UInt8) :
      ByteArray.toList.loop bytes i done = done.reverse ++ bytes.data.toList.drop i := by
    fun_induction ByteArray.toList.loop bytes i done with
    | case1 i done inside ih =>
        have inside : i < bytes.data.toList.length := inside
        have here : bytes.get! i = bytes.data.toList[i] := by
          rw [ByteArray.get!, Array.getElem_toList]
          exact getElem!_pos bytes.data i inside
        have split : bytes.data.toList.drop i = bytes.get! i :: bytes.data.toList.drop (i + 1) := by
          rw [here, List.getElem_cons_drop]
        rw [ih, split, List.reverse_cons, List.append_assoc]
        rfl
    | case2 i done beyond =>
        have nothing : bytes.data.toList.drop i = [] := List.drop_eq_nil_of_le (Nat.not_lt.mp beyond)
        rw [nothing, List.append_nil]
  exact loop 0 []

theorem encode_toList (s : String) : (encode s).toList = s.toList.flatMap String.utf8EncodeChar := by
  have same : encode s = s.toList.utf8Encode := by
    conv_lhs => rw [encode, ← String.ofList_toList (s := s)]
    rfl
  rw [toList_eq_data, same, List.utf8Encode, List.toList_data_toByteArray]

/-- The bytes of a character with this number, as many as it takes: the first one tells how many there are, and the
others hold six bits each. -/
inductive Sequence : Nat → List UInt8 → Prop
  | one (n : Nat) (high : n < 128) : Sequence n [UInt8.ofNat n]
  | two (m a : Nat) (low : 2 ≤ m) (high : m < 32) (small : a < 64) :
      Sequence (m * 64 + a) [UInt8.ofNat (m + 192), UInt8.ofNat (a + 128)]
  | three (m a b : Nat) (low : m = 0 → 32 ≤ a) (surrogate : m = 13 → a < 32) (high : m < 16) (small : a < 64)
      (small' : b < 64) :
      Sequence ((m * 64 + a) * 64 + b) [UInt8.ofNat (m + 224), UInt8.ofNat (a + 128), UInt8.ofNat (b + 128)]
  | four (m a b d : Nat) (low : m = 0 → 16 ≤ a) (last : m = 4 → a < 16) (high : m < 5) (small : a < 64)
      (small' : b < 64) (small'' : d < 64) :
      Sequence (((m * 64 + a) * 64 + b) * 64 + d)
        [UInt8.ofNat (m + 240), UInt8.ofNat (a + 128), UInt8.ofNat (b + 128), UInt8.ofNat (d + 128)]

theorem sequence_utf8EncodeChar (c : Char) : Sequence c.toNat (String.utf8EncodeChar c) := by
  have valid : c.toNat < 0xd800 ∨ 0xdfff < c.toNat ∧ c.toNat < 0x110000 := c.valid
  have value : c.val.toNat = c.toNat := rfl
  rw [String.utf8EncodeChar]
  simp only [value]
  generalize c.toNat = n at valid
  have tail : n % 64 < 64 := Nat.mod_lt n (by decide)
  have second : n / 64 % 64 < 64 := Nat.mod_lt _ (by decide)
  have third : n / 4096 % 64 < 64 := Nat.mod_lt _ (by decide)
  split
  · exact .one n (by omega)
  · split
    · have first : n / 64 % 32 = n / 64 := Nat.mod_eq_of_lt (by omega)
      have sum : n / 64 * 64 + n % 64 = n := by omega
      have bytes := Sequence.two (n / 64) (n % 64) (by omega) (by omega) tail
      rwa [sum, ← first] at bytes
    · split
      · have first : n / 4096 % 16 = n / 4096 := Nat.mod_eq_of_lt (by omega)
        have sum : (n / 4096 * 64 + n / 64 % 64) * 64 + n % 64 = n := by omega
        have bytes := Sequence.three (n / 4096) (n / 64 % 64) (n % 64) (by omega) (by omega) (by omega) second tail
        rwa [sum, ← first] at bytes
      · have first : n / 262144 % 8 = n / 262144 := Nat.mod_eq_of_lt (by omega)
        have sum : ((n / 262144 * 64 + n / 4096 % 64) * 64 + n / 64 % 64) * 64 + n % 64 = n := by omega
        have bytes := Sequence.four (n / 262144) (n / 4096 % 64) (n / 64 % 64) (n % 64) (by omega) (by omega)
          (by omega) third second tail
        rwa [sum, ← first] at bytes

namespace Replacement

theorem lead?_two {m : Nat} (low : 2 ≤ m) (high : m < 32) :
    lead? (UInt8.ofNat (m + 192)) = some { bits := m, count := 1 } := by
  interval_cases m <;> rfl

theorem lead?_three {m : Nat} (high : m < 16) :
    lead? (UInt8.ofNat (m + 224)) = some
      { bits := m, count := 2, low := if m = 0 then 0xa0 else 0x80, high := if m = 13 then 0x9f else 0xbf } := by
  interval_cases m <;> rfl

theorem lead?_four {m : Nat} (high : m < 5) :
    lead? (UInt8.ofNat (m + 240)) = some
      { bits := m, count := 3, low := if m = 0 then 0x90 else 0x80, high := if m = 4 then 0x8f else 0xbf } := by
  interval_cases m <;> rfl

/-- A byte that starts a longer sequence. -/
theorem read_starts {b : UInt8} {l : Lead} (lead : lead? b = some l) (rest : List UInt8) (done : List Char) :
    read (b :: rest) none done = read rest (some l) done := by
  have above : ¬ b < 0x80 := by
    intro ascii
    have low : decide (b < 0xc2) = true := decide_eq_true (UInt8.lt_trans ascii (by decide))
    rw [lead?, low] at lead
    cases lead
  rw [read.eq_def]
  simp only
  rw [read.start, if_neg above, lead]

/-- A byte that a sequence goes on with, but does not end with. -/
theorem read_continues {bits count m : Nat} {low high : UInt8} (small : m < 64) (above : low.toNat ≤ m + 128)
    (below : m + 128 ≤ high.toNat) (rest : List UInt8) (done : List Char) :
    read (UInt8.ofNat (m + 128) :: rest) (some ⟨bits, count + 2, low, high⟩) done =
      read rest (some { bits := bits * 64 + m, count := count + 1 }) done := by
  have value : (m + 128) % 256 = m + 128 := Nat.mod_eq_of_lt (by omega)
  rw [read.eq_def]
  simp [UInt8.le_iff_toNat_le, value, above, below]

/-- The last byte of a sequence. -/
theorem read_ends {bits m : Nat} (small : m < 64) (rest : List UInt8) (done : List Char) :
    read (UInt8.ofNat (m + 128) :: rest) (some { bits, count := 1 }) done =
      read rest none (Char.ofNat (bits * 64 + m) :: done) := by
  have value : (m + 128) % 256 = m + 128 := Nat.mod_eq_of_lt (by omega)
  have inside : m + 128 ≤ 191 := by omega
  rw [read.eq_def]
  simp [UInt8.le_iff_toNat_le, value, inside]

/-- A character is read off its own bytes. -/
theorem read_utf8EncodeChar (c : Char) (rest : List UInt8) (done : List Char) :
    read (String.utf8EncodeChar c ++ rest) none done = read rest none (c :: done) := by
  have bytes := sequence_utf8EncodeChar c
  have itself : c :: done = Char.ofNat c.toNat :: done := by rw [Char.ofNat_toNat]
  rw [itself]
  generalize c.toNat = n, String.utf8EncodeChar c = sequence at bytes ⊢
  cases bytes with
  | one n high =>
      have small : n % 256 = n := Nat.mod_eq_of_lt (by omega)
      have below : UInt8.ofNat n < 0x80 := by
        simp only [UInt8.lt_iff_toNat_lt, UInt8.toNat_ofNat', small]
        exact high
      rw [List.singleton_append, read.eq_def]
      simp only
      rw [read.start, if_pos below, UInt8.toNat_ofNat', small]
  | two m a low high small =>
      rw [List.cons_append, read_starts (lead?_two low high)]
      exact read_ends small rest done
  | three m a b low surrogate high small small' =>
      rw [List.cons_append, read_starts (lead?_three high), List.cons_append, read_continues small ?_ ?_]
      · exact read_ends small' rest done
      · split
        · next zero => exact Nat.add_le_add_right (low zero) 128
        · exact Nat.le_add_left ..
      · split
        · next thirteen => exact Nat.add_le_add_right (Nat.le_of_lt_succ (surrogate thirteen)) 128
        · exact Nat.add_le_add_right (Nat.le_of_lt_succ small) 128
  | four m a b d low last high small small' small'' =>
      rw [List.cons_append, read_starts (lead?_four high), List.cons_append, read_continues small ?_ ?_,
        List.cons_append, read_continues small' ?_ ?_]
      · exact read_ends small'' rest done
      · exact Nat.le_add_left ..
      · exact Nat.add_le_add_right (Nat.le_of_lt_succ small') 128
      · split
        · next zero => exact Nat.add_le_add_right (low zero) 128
        · exact Nat.le_add_left ..
      · split
        · next four => exact Nat.add_le_add_right (Nat.le_of_lt_succ (last four)) 128
        · exact Nat.add_le_add_right (Nat.le_of_lt_succ small) 128

/-- What has been read does not depend on what comes after it. -/
theorem read_done (bytes : List UInt8) (lead : Option Lead) (done : List Char) :
    read bytes lead done = done.reverse ++ read bytes lead [] := by
  induction bytes generalizing lead done with
  | nil => cases lead <;> simp [read]
  | cons b bytes ih =>
      have start (done : List Char) : read.start b bytes done = done.reverse ++ read.start b bytes [] := by
        simp only [read.start]
        split
        · rw [ih, ih _ [_]]
          simp
        · split
          · exact ih _ _
          · rw [ih, ih _ [_]]
            simp
      cases lead with
      | none => rw [read.eq_def, read.eq_def]; exact start done
      | some l =>
          rw [read.eq_def, read.eq_def]
          simp only
          split
          · split
            · rw [ih, ih _ [_]]
              simp
            · exact ih _ _
          · rw [start, start [_]]
            simp

end Replacement

/-- A text is read off its own bytes. -/
theorem ofBytes_encode (s : String) : ofBytes (encode s) = s := by
  have characters (cs done : List Char) :
      Replacement.read (cs.flatMap String.utf8EncodeChar) none done = done.reverse ++ cs := by
    induction cs generalizing done with
    | nil => rw [List.flatMap_nil, List.append_nil, Replacement.read]
    | cons c cs ih =>
        rw [List.flatMap_cons, Replacement.read_utf8EncodeChar, ih, List.reverse_cons, List.append_assoc]
        rfl
  rw [ofBytes, encode_toList, characters, List.reverse_nil, List.nil_append, String.ofList_toList]

/-- Bytes come back from the text that is read of them exactly if they are the bytes of a text. -/
theorem encode_ofBytes_iff (bytes : ByteArray) : encode (ofBytes bytes) = bytes ↔ bytes.IsValidUTF8 := by
  constructor
  · intro same
    rw [← same]
    exact (ofBytes bytes).isValidUTF8
  · intro valid
    have text : encode (String.ofByteArray bytes valid) = bytes := rfl
    rw [← text, ofBytes_encode]

/-! ### Guest strings -/

namespace Repair

theorem lead_two {m : Nat} (low : 2 ≤ m) (high : m < 32) :
    sequenceLength (UInt8.ofNat (m + 192)) = some 2 ∧ (UInt8.ofNat (m + 192)).toNat % Nat.pow 2 (7 - 2) = m := by
  interval_cases m <;> decide

theorem lead_three {m : Nat} (high : m < 16) :
    sequenceLength (UInt8.ofNat (m + 224)) = some 3 ∧ (UInt8.ofNat (m + 224)).toNat % Nat.pow 2 (7 - 3) = m := by
  interval_cases m <;> decide

theorem lead_four {m : Nat} (high : m < 5) :
    sequenceLength (UInt8.ofNat (m + 240)) = some 4 ∧ (UInt8.ofNat (m + 240)).toNat % Nat.pow 2 (7 - 4) = m := by
  interval_cases m <;> decide

theorem continuation_tail {m : Nat} (small : m < 64) :
    isContinuation (UInt8.ofNat (m + 128)) = true ∧ tail (UInt8.ofNat (m + 128)) = m := by
  interval_cases m <;> decide

/-- A byte that a sequence goes on with. -/
theorem continuations_continues {m : Nat} (small : m < 64) (n value : Nat) (rest : List UInt8) :
    continuations (n + 1) value (UInt8.ofNat (m + 128) :: rest) = continuations n (value * 64 + m) rest := by
  obtain ⟨continues, bits⟩ := continuation_tail small
  rw [continuations, if_pos continues, bits]

/-- A sequence that is not cut off. -/
theorem next_whole {lead : UInt8} {n value : Nat} {bytes rest : List UInt8} (length : sequenceLength lead = some n)
    (several : 2 ≤ n) (whole : n ≤ bytes.length + 1)
    (read : continuations (n - 1) (lead.toNat % Nat.pow 2 (7 - n)) bytes = (some value, rest)) :
    next lead bytes = (value, rest) := by
  rw [next, length]
  split
  · next none => cases none
  · next one =>
      cases one
      omega
  · next same =>
      cases same
      rw [if_neg (by omega)]
      dsimp only
      rw [read]

/-- The code point of a character is read off its own bytes. -/
theorem codePoints_utf8EncodeChar (c : Char) (rest : List UInt8) :
    codePoints (String.utf8EncodeChar c ++ rest) = c.toNat :: codePoints rest := by
  have whole {lead : UInt8} {bytes : List UInt8} {n : Nat} (read : next lead (bytes ++ rest) = (n, rest)) :
      codePoints (lead :: bytes ++ rest) = n :: codePoints rest := by
    rw [List.cons_append, codePoints, read]
  have bytes := sequence_utf8EncodeChar c
  generalize c.toNat = n, String.utf8EncodeChar c = sequence at bytes ⊢
  cases bytes with
  | one n high =>
      have small : n % 256 = n := Nat.mod_eq_of_lt (by omega)
      have below : UInt8.ofNat n < 0x80 := by
        simp only [UInt8.lt_iff_toNat_lt, UInt8.toNat_ofNat', small]
        exact high
      refine whole ?_
      rw [next, sequenceLength, if_pos below]
      simp only [UInt8.toNat_ofNat', small, List.nil_append]
  | two m a low high small =>
      obtain ⟨length, bits⟩ := lead_two low high
      refine whole (next_whole length (by decide) (by simp) ?_)
      rw [bits, List.cons_append, continuations_continues small 0, continuations, List.nil_append]
  | three m a b low surrogate high small small' =>
      obtain ⟨length, bits⟩ := lead_three high
      refine whole (next_whole length (by decide) (by simp) ?_)
      rw [bits, List.cons_append, continuations_continues small 1, List.cons_append,
        continuations_continues small' 0, continuations, List.nil_append]
  | four m a b d low last high small small' small'' =>
      obtain ⟨length, bits⟩ := lead_four high
      refine whole (next_whole length (by decide) (by simp) ?_)
      rw [bits, List.cons_append, continuations_continues small 2, List.cons_append,
        continuations_continues small' 1, List.cons_append, continuations_continues small'' 0, continuations,
        List.nil_append]

theorem characters_toNat (c : Char) (rest : List Nat) : characters (c.toNat :: rest) = c :: characters rest := by
  have valid : c.toNat < 0xd800 ∨ 0xdfff < c.toNat ∧ c.toNat < 0x110000 := c.valid
  have itself : characters.character c.toNat = c := by
    have valid : c.toNat.isValidChar := c.valid
    rw [characters.character, if_pos valid, Char.ofNat_toNat]
  cases rest with
  | nil =>
      simp only [characters, itself]
  | cons low rest =>
      have high : isHighSurrogate c.toNat = false := by
        rw [isHighSurrogate, Bool.and_eq_false_iff, decide_eq_false_iff_not, decide_eq_false_iff_not]
        omega
      rw [characters, high, Bool.false_and, if_neg (by decide), itself]

end Repair

theorem encode_append_isValid (s : String) (bytes : ByteArray) :
    (encode s ++ bytes).IsValidUTF8 ↔ bytes.IsValidUTF8 := by
  have text (cs : List Char) : (cs.utf8Encode ++ bytes).IsValidUTF8 ↔ bytes.IsValidUTF8 := by
    induction cs with
    | nil => simp
    | cons c cs ih =>
        rw [List.utf8Encode_cons, ByteArray.append_assoc, ByteArray.isValidUTF8_utf8Encode_singleton_append_iff, ih]
  obtain ⟨cs, rfl⟩ : ∃ cs, s = String.ofList cs := ⟨s.toList, String.ofList_toList.symm⟩
  exact text cs

/-- A text is read off its own bytes, whatever follows them. -/
theorem decode_encode_append (s : String) (bytes : ByteArray) : decode (encode s ++ bytes) = s ++ decode bytes := by
  by_cases valid : bytes.IsValidUTF8
  · obtain ⟨t, rfl⟩ : ∃ t, bytes = encode t := ⟨.ofByteArray bytes valid, rfl⟩
    have joined : encode s ++ encode t = encode (s ++ t) := rfl
    rw [joined, decode_encode, decode_encode]
  · have read : String.fromUTF8? bytes = none := by
      rw [String.fromUTF8?, dif_neg valid]
    have invalid : String.fromUTF8? (encode s ++ bytes) = none := by
      rw [String.fromUTF8?, dif_neg (mt (encode_append_isValid s bytes).mp valid)]
    have points (cs : List Char) :
        Repair.characters (Repair.codePoints (cs.flatMap String.utf8EncodeChar ++ bytes.toList)) =
          cs ++ Repair.characters (Repair.codePoints bytes.toList) := by
      induction cs with
      | nil => rfl
      | cons c cs ih =>
          rw [List.flatMap_cons, List.append_assoc, Repair.codePoints_utf8EncodeChar, Repair.characters_toNat, ih]
          rfl
    have split : (encode s ++ bytes).toList = s.toList.flatMap String.utf8EncodeChar ++ bytes.toList := by
      rw [← encode_toList, toList_eq_data, toList_eq_data, toList_eq_data]
      simp
    simp only [decode, read, invalid]
    rw [split, points, String.ofList_append, String.ofList_toList]

end LuaHost.Text
