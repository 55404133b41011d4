import LuaHost.Decimal.Notation
import LuaHost.Proofs.RecordOrder
import LuaHost.Proofs.Substitution
/-!
What decimal texts say. Digits without zeros at either end are written in one of four forms, by where their point is.
Whatever the form, the number can be read off the text again; only a whole number that is not too large is written
with digits alone, and no form ends with a point and a zero.
-/

namespace LuaHost.Decimal

/-! ### Digits -/

/-- The number with these digits. -/
def numberOf (ds : List Nat) : Nat := ds.foldl (fun n i => 10 * n + i) 0

theorem numberOf_append (xs ys : List Nat) :
    numberOf (xs ++ ys) = numberOf xs * 10 ^ ys.length + numberOf ys := by
  induction ys using List.reverseRecOn with
  | nil => simp [numberOf]
  | append_singleton ys i ih =>
      have last (zs : List Nat) : numberOf (zs ++ [i]) = 10 * numberOf zs + i := by
        simp [numberOf]
      rw [← List.append_assoc, last, last, ih, List.length_append, List.length_singleton, pow_succ]
      ring

theorem numberOf_lt {ds : List Nat} (digit : ∀ i ∈ ds, i < 10) : numberOf ds < 10 ^ ds.length := by
  induction ds using List.reverseRecOn with
  | nil => simp [numberOf]
  | append_singleton ds i ih =>
      have small := digit i (by simp)
      have front := ih fun j mem => digit j (List.mem_append_left _ mem)
      rw [numberOf_append, List.length_append, List.length_singleton, pow_succ]
      simp only [numberOf, List.foldl_cons, List.foldl_nil] at front ⊢
      omega

theorem numberOf_replicate (n : Nat) : numberOf (List.replicate n 0) = 0 := by
  induction n with
  | zero => rfl
  | succ n ih => simpa [List.replicate_succ, numberOf] using ih

/-- Zeros in front of digits count for nothing. -/
theorem numberOf_zeros (n : Nat) (ds : List Nat) : numberOf (List.replicate n 0 ++ ds) = numberOf ds := by
  rw [numberOf_append, numberOf_replicate, Nat.zero_mul, Nat.zero_add]

namespace Digits
variable {d : Digits}

/-- The number that digits and the place of their point stand for. -/
def value (d : Digits) : ℚ := numberOf d.digits * 10 ^ (d.point - d.digits.length)

/-- Digits without zeros at the front or the end. -/
structure Normal (d : Digits) : Prop where
  digit : ∀ i ∈ d.digits, i < 10
  first : ∃ i rest, d.digits = i :: rest ∧ i ≠ 0
  last : ∃ front i, d.digits = front ++ [i] ∧ i ≠ 0

end Digits

theorem digitsOf_number {count : Nat} (positive : 0 < count) :
    numberOf (digitsOf count) = count ∧ (∀ i ∈ digitsOf count, i < 10) ∧
      ∃ i rest, digitsOf count = i :: rest ∧ i ≠ 0 := by
  rw [digitsOf, if_neg (Nat.ne_of_gt positive)]
  have digit (c : Char) (mem : c ∈ Nat.toDigits 10 count) : Record.isDigit c = true :=
    Nat.isDigit_of_mem_toDigits (by decide) (by decide) mem
  refine ⟨?_, ?_, ?_⟩
  · have number := Nat.ofDigitChars_toDigits (b := 10) (n := count) (by decide) (by decide)
    rw [numberOf, List.foldl_map]
    exact number
  · intro i mem
    obtain ⟨c, here, rfl⟩ := List.mem_map.mp mem
    exact (Record.digitChar_toNat (digit c here)).1
  · have head := Record.toDigits_head positive
    obtain ⟨c, rest, split⟩ := List.exists_cons_of_ne_nil (Nat.toDigits_ne_nil (n := count) (b := 10))
    rw [split] at head digit ⊢
    refine ⟨_, _, rfl, fun zero => head ?_⟩
    obtain ⟨-, written⟩ := Record.digitChar_toNat (digit c List.mem_cons_self)
    have zero : c.toNat - 48 = 0 := zero
    rw [zero] at written
    rw [List.head?_cons, ← written]
    rfl

theorem trimZeros_split (ds : List Nat) : ∃ n, ds = trimZeros ds ++ List.replicate n 0 := by
  refine ⟨(ds.reverse.takeWhile (· == 0)).length, ?_⟩
  have zeros : (ds.reverse.takeWhile (· == 0)).reverse =
      List.replicate (ds.reverse.takeWhile (· == 0)).length 0 := by
    rw [List.eq_replicate_iff]
    refine ⟨List.length_reverse, fun i mem => ?_⟩
    simpa using List.mem_takeWhile_imp (List.mem_reverse.mp mem)
  rw [← zeros, trimZeros, ← List.reverse_append, List.takeWhile_append_dropWhile, List.reverse_reverse]

namespace Digits
variable {d : Digits}

/-- Leaving out the zeros at the end changes neither the number nor its first digit. -/
theorem ofGrid_normal {count : Nat} (positive : 0 < count) (place : Int) :
    (ofGrid count place).Normal ∧ (ofGrid count place).value = count * 10 ^ place := by
  obtain ⟨number, digit, i, rest, first, significant⟩ := digitsOf_number positive
  obtain ⟨zeros, split⟩ := trimZeros_split (digitsOf count)
  have left : (trimZeros (digitsOf count)) ≠ [] := by
    intro nothing
    rw [nothing, List.nil_append, first] at split
    exact significant (List.eq_of_mem_replicate (split ▸ List.mem_cons_self))
  have last : ∃ front j, trimZeros (digitsOf count) = front ++ [j] ∧ j ≠ 0 := by
    have head := List.head?_dropWhile_not (· == 0) (digitsOf count).reverse
    rw [trimZeros, Ne, List.reverse_eq_nil_iff] at left
    obtain ⟨j, back, same⟩ := List.exists_cons_of_ne_nil left
    rw [same] at head
    refine ⟨back.reverse, j, ?_, by simpa using head⟩
    rw [trimZeros, same, List.reverse_cons]
  constructor
  · refine ⟨fun j mem => digit j ?_, ?_, last⟩
    · rw [split]
      exact List.mem_append_left _ mem
    · obtain ⟨j, rest', same⟩ := List.exists_cons_of_ne_nil left
      refine ⟨j, rest', same, ?_⟩
      rw [same, first, List.cons_append] at split
      rwa [← (List.cons.inj split).1]
  · have size := congrArg List.length split
    rw [List.length_append, List.length_replicate] at size
    have trimmed := congrArg numberOf split
    rw [number, numberOf_append, numberOf_replicate, List.length_replicate, Nat.add_zero] at trimmed
    have exponent : (ofGrid count place).point - (ofGrid count place).digits.length = zeros + place := by
      simp only [ofGrid]
      omega
    rw [value, exponent, zpow_add₀ (by norm_num), zpow_natCast, ← mul_assoc]
    congr 1
    exact_mod_cast trimmed.symm

theorem Normal.number_bounds (normal : d.Normal) :
    10 ^ d.digits.length ≤ 10 * numberOf d.digits ∧ numberOf d.digits < 10 ^ d.digits.length ∧
      numberOf d.digits % 10 ≠ 0 := by
  refine ⟨?_, numberOf_lt normal.digit, ?_⟩
  · obtain ⟨i, rest, split, significant⟩ := normal.first
    have number : numberOf (i :: rest) = i * 10 ^ rest.length + numberOf rest := by
      simpa [numberOf] using numberOf_append [i] rest
    rw [split, List.length_cons, pow_succ, number]
    nlinarith [Nat.one_le_iff_ne_zero.mpr significant, Nat.pow_pos (n := rest.length) (show 0 < 10 by decide)]
  · obtain ⟨front, i, split, significant⟩ := normal.last
    have small := normal.digit i (by simp [split])
    have number : numberOf (front ++ [i]) = numberOf front * 10 + i := by
      simpa [numberOf] using numberOf_append front [i]
    rw [split, number]
    omega

/-- The first digit tells how large a number is. -/
theorem Normal.value_bounds (normal : d.Normal) : (10 : ℚ) ^ (d.point - 1) ≤ d.value ∧ d.value < 10 ^ d.point := by
  obtain ⟨low, high, -⟩ := normal.number_bounds
  have low : (10 : ℚ) ^ d.digits.length ≤ 10 * numberOf d.digits := by exact_mod_cast low
  have high : (numberOf d.digits : ℚ) < 10 ^ d.digits.length := by exact_mod_cast high
  have unit : (0 : ℚ) < 10 ^ (d.point - d.digits.length) := by positivity
  have all : (10 : ℚ) ^ d.point = 10 ^ d.digits.length * 10 ^ (d.point - d.digits.length) := by
    rw [← zpow_natCast, ← zpow_add₀ (by norm_num)]
    congr 1
    ring
  have tenth : (10 : ℚ) ^ (d.point - 1) * 10 = 10 ^ d.point := by
    rw [← zpow_add_one₀ (by norm_num)]
    congr 1
    ring
  rw [value]
  constructor
  · nlinarith
  · rw [all]
    exact mul_lt_mul_of_pos_right high unit

theorem Normal.below_iff (normal : d.Normal) (e : Int) : d.value < 10 ^ e ↔ d.point ≤ e := by
  obtain ⟨low, high⟩ := normal.value_bounds
  constructor
  · intro below
    have less := (zpow_lt_zpow_iff_right₀ (by norm_num)).mp (low.trans_lt below)
    omega
  · intro point
    exact high.trans_le (zpow_le_zpow_right₀ (by norm_num) point)

/-- A number is whole exactly if its digits do not go past the point. -/
theorem Normal.whole_iff (normal : d.Normal) : (∃ k : Nat, d.value = k) ↔ (d.digits.length : Int) ≤ d.point := by
  obtain ⟨-, -, last⟩ := normal.number_bounds
  rw [value]
  constructor
  · rintro ⟨k, whole⟩
    by_contra past
    obtain ⟨n, hn⟩ := Int.eq_ofNat_of_zero_le (show 0 ≤ d.digits.length - d.point - 1 by omega)
    have fraction : d.point - d.digits.length = -((n + 1 : Nat) : Int) := by omega
    have unit : (10 : ℚ) ^ (n + 1) ≠ 0 := by positivity
    rw [fraction, zpow_neg, zpow_natCast, ← div_eq_mul_inv, div_eq_iff unit] at whole
    have whole : numberOf d.digits = k * 10 ^ n * 10 := by
      rw [mul_assoc, ← pow_succ]
      exact_mod_cast whole
    exact last (by rw [whole, Nat.mul_mod_left])
  · intro short
    obtain ⟨n, hn⟩ := Int.eq_ofNat_of_zero_le (show 0 ≤ d.point - d.digits.length by omega)
    refine ⟨numberOf d.digits * 10 ^ n, ?_⟩
    rw [hn]
    simp

end Digits

/-! ### Reading texts -/

/-- The number that a mark for an exponent and its digits stand for; there may be none. -/
def exponentOf : List Char → Int
  | _ :: '-' :: ds => -(Nat.ofDigitChars 10 ds 0 : Int)
  | _ :: _ :: ds => Nat.ofDigitChars 10 ds 0
  | _ => 0

/-- The number that a text without a sign stands for: digits around a point, and an exponent. -/
def numberIn (text : List Char) : ℚ :=
  let mantissa := text.takeWhile (· ≠ 'e')
  let exponent := text.dropWhile (· ≠ 'e')
  let whole := mantissa.takeWhile (· ≠ '.')
  let fraction := (mantissa.dropWhile (· ≠ '.')).drop 1
  Nat.ofDigitChars 10 (whole ++ fraction) 0 * 10 ^ (exponentOf exponent - fraction.length)

@[simp] theorem exponentOf_nil : exponentOf [] = 0 := rfl

/-- There are digits only. -/
def Plain (text : List Char) : Prop := ∀ c ∈ text, c.isDigit = true

/-- What may come after the digits of a number: nothing, or an exponent. -/
def IsExponent (text : List Char) : Prop := text = [] ∨ ∃ rest, text = 'e' :: rest

section Reading
variable {whole fraction exponent : List Char}

theorem Plain.not_mem (plain : Plain whole) {c : Char} (other : c.isDigit = false) : c ∉ whole := by
  intro mem
  rw [plain c mem] at other
  cases other

theorem IsExponent.split (ends : IsExponent exponent) {text : List Char} (none : 'e' ∉ text) :
    (text ++ exponent).takeWhile (· ≠ 'e') = text ∧ (text ++ exponent).dropWhile (· ≠ 'e') = exponent := by
  obtain rfl | ⟨rest, rfl⟩ := ends
  · rw [List.append_nil]
    exact Template.passed_all none
  · exact Template.passed_before none rest

theorem numberIn_whole (plain : Plain whole) (ends : IsExponent exponent) :
    numberIn (whole ++ exponent) = Nat.ofDigitChars 10 whole 0 * 10 ^ exponentOf exponent := by
  obtain ⟨mantissa, rest⟩ := ends.split (plain.not_mem (c := 'e') rfl)
  obtain ⟨all, none⟩ := Template.passed_all (plain.not_mem (c := '.') rfl)
  rw [numberIn]
  rw [mantissa, rest, all, none]
  simp

theorem numberIn_fraction (plain : Plain whole) (plain' : Plain fraction) (ends : IsExponent exponent) :
    numberIn (whole ++ '.' :: fraction ++ exponent) =
      Nat.ofDigitChars 10 (whole ++ fraction) 0 * 10 ^ (exponentOf exponent - fraction.length) := by
  have none : 'e' ∉ whole ++ '.' :: fraction := by
    simp [plain.not_mem (c := 'e') rfl, plain'.not_mem (c := 'e') rfl]
  obtain ⟨mantissa, rest⟩ := ends.split none
  obtain ⟨before, after⟩ := Template.passed_before (plain.not_mem (c := '.') rfl) fraction
  rw [numberIn]
  rw [mantissa, rest, before, after]
  rfl

end Reading

/-! ### Writing digits -/

theorem digits_plain {ds : List Nat} (digit : ∀ i ∈ ds, i < 10) : Plain (ds.map Nat.digitChar) := by
  intro c mem
  obtain ⟨i, here, rfl⟩ := List.mem_map.mp mem
  have small := digit i here
  interval_cases i <;> decide

theorem zeros_plain (n : Nat) : Plain (List.replicate n '0') := by
  intro c mem
  rw [List.eq_of_mem_replicate mem]
  decide

/-- Zeros are written as the digits that they are. -/
theorem zeros_digits (n : Nat) :
    List.replicate n '0' = (List.replicate n 0).map Nat.digitChar ∧ ∀ i ∈ List.replicate n 0, i < 10 := by
  refine ⟨by rw [List.map_replicate]; rfl, fun i mem => ?_⟩
  rw [List.eq_of_mem_replicate mem]
  decide

theorem ofDigitChars_digits {ds : List Nat} (digit : ∀ i ∈ ds, i < 10) (start : Nat) :
    Nat.ofDigitChars 10 (ds.map Nat.digitChar) start = ds.foldl (fun n i => 10 * n + i) start := by
  induction ds generalizing start with
  | nil => simp
  | cons i ds ih =>
      have small := digit i List.mem_cons_self
      rw [List.map_cons, Nat.ofDigitChars_cons, List.foldl_cons, ih fun j mem => digit j (List.mem_cons_of_mem _ mem),
        Nat.toNat_digitChar_of_lt_ten small]
      congr 1
      have zero : '0'.toNat = 48 := rfl
      omega

/-- An exponent is written with a mark, a sign and digits. -/
theorem exponentText_toList (e : Int) : ∃ sign, (sign = if e < 0 then '-' else '+') ∧
    (exponentText e).toList = 'e' :: sign :: Nat.toDigits 10 e.natAbs := by
  have digits : (toString e.natAbs).toList = Nat.toDigits 10 e.natAbs := by simp
  rw [exponentText, String.toList_append, digits]
  by_cases negative : e < 0
  · exact ⟨'-', by simp [negative], by simp [negative]⟩
  · exact ⟨'+', by simp [negative], by simp [negative]⟩

theorem exponentOf_text (e : Int) :
    exponentOf (exponentText e).toList = e ∧ IsExponent (exponentText e).toList := by
  have number := Nat.ofDigitChars_toDigits (b := 10) (n := e.natAbs) (by decide) (by decide)
  obtain ⟨sign, signed, text⟩ := exponentText_toList e
  refine ⟨?_, .inr ⟨_, text⟩⟩
  rw [text, signed]
  split
  · next negative =>
      show -(Nat.ofDigitChars 10 (Nat.toDigits 10 e.natAbs) 0 : Int) = e
      omega
  · next positive =>
      show (Nat.ofDigitChars 10 (Nat.toDigits 10 e.natAbs) 0 : Int) = e
      omega

theorem exponentText_marks (e : Int) :
    'e' ∈ (exponentText e).toList ∧ '.' ∉ (exponentText e).toList ∧ 2 ≤ (exponentText e).toList.length := by
  obtain ⟨sign, signed, text⟩ := exponentText_toList e
  have digits : '.' ∉ Nat.toDigits 10 e.natAbs := by
    intro mem
    exact absurd (Nat.isDigit_of_mem_toDigits (by decide) (by decide) mem) (by decide)
  have other : '.' ≠ sign := by
    rw [signed]
    split <;> decide
  rw [text]
  simp [digits, other]

namespace Digits
variable {d : Digits}

/-- The forms in which digits are written, by the place of their point. -/
inductive Form (d : Digits) : List Char → Prop
  | whole (zeros : Nat) (point : d.point = d.digits.length + zeros) (near : d.point ≤ 21) :
      Form d (d.digits.map Nat.digitChar ++ List.replicate zeros '0')
  | mixed {before after : List Nat} (split : d.digits = before ++ after) (point : d.point = before.length)
      (first : before ≠ []) (rest : after ≠ []) :
      Form d (before.map Nat.digitChar ++ '.' :: after.map Nat.digitChar)
  | small (zeros : Nat) (point : d.point = -zeros) :
      Form d ('0' :: '.' :: (List.replicate zeros '0' ++ d.digits.map Nat.digitChar))
  | digit {i : Nat} (only : d.digits = [i]) (far : d.point ≤ -6 ∨ 21 < d.point) :
      Form d (Nat.digitChar i :: (exponentText (d.point - 1)).toList)
  | scientific {i : Nat} {rest : List Nat} (split : d.digits = i :: rest) (more : rest ≠ [])
      (far : d.point ≤ -6 ∨ 21 < d.point) :
      Form d (Nat.digitChar i :: '.' :: rest.map Nat.digitChar ++ (exponentText (d.point - 1)).toList)

theorem digitText_toList (ds : List Nat) : (digitText ds).toList = ds.map Nat.digitChar := by
  simp [digitText]

theorem zeros_toList (n : Nat) : (zeros n).toList = List.replicate n '0' := by
  simp [zeros]

theorem positional_form (near : d.point ≤ 21) : d.Form d.positional.toList := by
  rw [positional]
  split
  · next past =>
      obtain ⟨zeros, hz⟩ := Int.eq_ofNat_of_zero_le (show 0 ≤ d.point - d.digits.length by omega)
      rw [String.toList_append, digitText_toList, zeros_toList, hz, Int.toNat_natCast]
      exact .whole zeros (by omega) near
  · next inside =>
      split
      · next after =>
          obtain ⟨n, hn⟩ := Int.eq_ofNat_of_zero_le after.le
          have below : n < d.digits.length := by omega
          rw [String.toList_append, String.toList_append, digitText_toList, digitText_toList, hn, Int.toNat_natCast,
            List.append_assoc]
          refine .mixed (List.take_append_drop n d.digits).symm ?_ ?_ ?_
          · rw [List.length_take, Nat.min_eq_left below.le, hn]
          · rw [Ne, List.take_eq_nil_iff]
            rintro (zero | none)
            · omega
            · simp [none] at below
          · rw [Ne, List.drop_eq_nil_iff]
            omega
      · next before =>
          obtain ⟨zeros, hz⟩ := Int.eq_ofNat_of_zero_le (show 0 ≤ -d.point by omega)
          rw [String.toList_append, String.toList_append, digitText_toList, zeros_toList, hz, Int.toNat_natCast]
          exact .small zeros (by omega)

theorem Normal.scientific_form (normal : d.Normal) (far : d.point ≤ -6 ∨ 21 < d.point) :
    d.Form d.scientific.toList := by
  obtain ⟨i, rest, split, -⟩ := normal.first
  rw [scientific, split]
  cases rest with
  | nil =>
      rw [if_pos (by simp), String.append_empty, String.toList_append, digitText_toList]
      exact .digit split far
  | cons j rest =>
      rw [if_neg (by simp), String.toList_append, String.toList_append, String.toList_append, digitText_toList,
        digitText_toList]
      exact .scientific split (by simp) far

/-- Digits are written in one of the forms. -/
theorem Normal.form (normal : d.Normal) : d.Form d.text.toList := by
  obtain ⟨i, rest, split, -⟩ := normal.first
  rw [text, if_neg (by simp [split])]
  split
  · next near =>
      simp only [Bool.and_eq_true, decide_eq_true_eq] at near
      exact positional_form near.2
  · next far =>
      simp only [Bool.and_eq_true, decide_eq_true_eq] at far
      exact normal.scientific_form (by omega)

/-- The number can be read off each of the forms. -/
theorem Form.number {text : List Char} (form : d.Form text) (normal : d.Normal) : numberIn text = d.value := by
  have digit := normal.digit
  rw [value]
  cases form with
  | whole zeros point near =>
      obtain ⟨text, zero⟩ := zeros_digits zeros
      have digit := List.forall_mem_append.mpr ⟨digit, zero⟩
      have exponent : d.point - d.digits.length = zeros := by omega
      have number := numberIn_whole (digits_plain digit) (.inl rfl)
      rw [ofDigitChars_digits digit, ← numberOf, numberOf_append, numberOf_replicate, List.length_replicate,
        List.append_nil, List.map_append, ← text] at number
      rw [number, exponent]
      simp
  | @mixed before after split point first rest =>
      have front : ∀ i ∈ before, i < 10 := fun i mem => digit i (split ▸ List.mem_append_left _ mem)
      have back : ∀ i ∈ after, i < 10 := fun i mem => digit i (split ▸ List.mem_append_right _ mem)
      have exponent : exponentOf [] - ((after.map Nat.digitChar).length : Int) = d.point - d.digits.length := by
        rw [split, List.length_map, List.length_append, exponentOf_nil]
        omega
      rw [← List.append_nil (before.map Nat.digitChar ++ '.' :: after.map Nat.digitChar),
        numberIn_fraction (digits_plain front) (digits_plain back) (.inl rfl), ← List.map_append, ← split,
        ofDigitChars_digits digit, exponent]
      rfl
  | small zeros point =>
      obtain ⟨text, zero⟩ := zeros_digits zeros
      have digit' := List.forall_mem_append.mpr ⟨zero, digit⟩
      have exponent : exponentOf [] - (((List.replicate zeros 0 ++ d.digits).map Nat.digitChar).length : Int) =
          d.point - d.digits.length := by
        rw [List.length_map, List.length_append, List.length_replicate, exponentOf_nil]
        omega
      have number := numberIn_fraction (zeros_plain 1) (digits_plain digit') (.inl (Eq.refl []))
      rw [exponent, List.append_nil, Nat.ofDigitChars_append, ofDigitChars_digits digit'] at number
      rw [text, ← List.map_append]
      refine number.trans ?_
      congr 2
      exact numberOf_zeros zeros d.digits
  | @digit i only far =>
      have small : ∀ j ∈ [i], j < 10 := only ▸ digit
      obtain ⟨exponent, ends⟩ := exponentOf_text (d.point - 1)
      have number := numberIn_whole (digits_plain small) ends
      rw [ofDigitChars_digits small, exponent] at number
      rw [only]
      exact number
  | @scientific i rest split more far =>
      have first : ∀ j ∈ [i], j < 10 := by
        intro j mem
        exact digit j (split ▸ List.mem_cons.mpr (.inl (List.mem_singleton.mp mem)))
      have others : ∀ j ∈ rest, j < 10 := fun j mem => digit j (split ▸ List.mem_cons_of_mem i mem)
      obtain ⟨exponent, ends⟩ := exponentOf_text (d.point - 1)
      have number := numberIn_fraction (digits_plain first) (digits_plain others) ends
      have place : d.point - 1 - ((rest.map Nat.digitChar).length : Int) = d.point - d.digits.length := by
        rw [split, List.length_map, List.length_cons]
        omega
      rw [← List.map_append, List.singleton_append, ← split, ofDigitChars_digits digit, exponent, place] at number
      exact number

theorem digitChar_plain {i : Nat} (small : i < 10) :
    (Nat.digitChar i).isDigit = true ∧ (Nat.digitChar i = '0' ↔ i = 0) := by
  interval_cases i <;> decide

/-- What is written starts with a digit. -/
theorem Form.head {text : List Char} (form : d.Form text) (normal : d.Normal) :
    ∃ c rest, text = c :: rest ∧ c.isDigit = true := by
  have digit := normal.digit
  cases form with
  | whole zeros point near =>
      obtain ⟨i, rest, split, -⟩ := normal.first
      rw [split]
      exact ⟨_, _, rfl, (digitChar_plain (digit i (by simp [split]))).1⟩
  | @mixed before after split point first rest =>
      obtain ⟨i, before, rfl⟩ := List.exists_cons_of_ne_nil first
      exact ⟨_, _, rfl, (digitChar_plain (digit i (by simp [split]))).1⟩
  | small zeros point => exact ⟨_, _, rfl, rfl⟩
  | @digit i only far => exact ⟨_, _, rfl, (digitChar_plain (digit i (by simp [only]))).1⟩
  | @scientific i rest split more far => exact ⟨_, _, rfl, (digitChar_plain (digit i (by simp [split]))).1⟩

/-- Only a number that is whole and not too large is written with digits alone. -/
theorem Form.plain_iff {text : List Char} (form : d.Form text) (normal : d.Normal) :
    (∀ c ∈ text, (c.isDigit || c == '-') = true) ↔ (d.digits.length : Int) ≤ d.point ∧ d.point ≤ 21 := by
  obtain ⟨i, rest, split, -⟩ := normal.first
  have some : 0 < d.digits.length := by
    rw [split]
    exact Nat.succ_pos _
  cases form with
  | whole zeros point near =>
      refine ⟨fun _ => ⟨by omega, near⟩, fun _ c mem => ?_⟩
      rcases List.mem_append.mp mem with mem | mem
      · simp [digits_plain normal.digit c mem]
      · simp [zeros_plain zeros c mem]
  | @mixed before after split point first rest =>
      have sizes := congrArg List.length split
      have past := List.length_pos_of_ne_nil rest
      rw [List.length_append] at sizes
      refine ⟨fun plain => absurd (plain '.' (by simp)) (by decide), fun inside => ?_⟩
      omega
  | small zeros point =>
      refine ⟨fun plain => absurd (plain '.' (by simp)) (by decide), fun inside => ?_⟩
      omega
  | digit only far =>
      refine ⟨fun plain => absurd (plain 'e' ?_) (by decide), fun inside => ?_⟩
      · exact List.mem_cons_of_mem _ (exponentText_marks (d.point - 1)).1
      · omega
  | scientific split more far =>
      refine ⟨fun plain => absurd (plain '.' (by simp)) (by decide), fun inside => ?_⟩
      omega

/-- Nothing is written with a point and a zero at its end. -/
theorem Form.last {text : List Char} (form : d.Form text) (normal : d.Normal) : ¬ ['.', '0'] <:+ text := by
  intro zero
  have significant (front : List Char) {i : Nat} (small : i < 10) (other : i ≠ 0)
      (same : text = front ++ [Nat.digitChar i]) : False := by
    obtain ⟨rest, split⟩ := zero
    have last := congrArg List.getLast? (split.trans same)
    rw [List.getLast?_append_of_ne_nil _ (by simp), List.getLast?_concat] at last
    exact other ((digitChar_plain small).2.mp (Option.some.inj last).symm)
  have marked (front : List Char) (same : text = front ++ (exponentText (d.point - 1)).toList) : False := by
    obtain ⟨-, plain, long⟩ := exponentText_marks (d.point - 1)
    have inside := List.suffix_of_suffix_length_le zero (same ▸ List.suffix_append _ _) long
    exact plain (inside.subset (by simp))
  obtain ⟨front, i, split, other⟩ := normal.last
  have small := normal.digit i (by simp [split])
  cases form with
  | whole zeros point near =>
      rcases List.mem_append.mp (zero.subset (show '.' ∈ ['.', '0'] by simp)) with mem | mem
      · exact (digits_plain normal.digit).not_mem rfl mem
      · exact (zeros_plain zeros).not_mem rfl mem
  | @mixed before after split' point first rest =>
      obtain ⟨middle, j, rfl⟩ := List.eq_nil_or_concat' after |>.resolve_left rest
      rw [split', ← List.append_assoc] at split
      obtain ⟨-, same⟩ := List.append_inj' split rfl
      obtain rfl : j = i := List.singleton_inj.mp same
      refine significant (before.map Nat.digitChar ++ '.' :: middle.map Nat.digitChar) small other ?_
      simp
  | small zeros point =>
      refine significant ('0' :: '.' :: (List.replicate zeros '0' ++ front.map Nat.digitChar)) small other ?_
      simp [split]
  | @digit i only far => exact marked [Nat.digitChar i] rfl
  | @scientific i rest split more far => exact marked (Nat.digitChar i :: '.' :: rest.map Nat.digitChar) rfl

end Digits

end LuaHost.Decimal
