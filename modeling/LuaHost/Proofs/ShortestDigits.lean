import LuaHost.Decimal.Shortest
import Mathlib
/-!
What the shortest digits of a double are worth. Each double is nearest to the numbers of an interval, which does not
meet that of any other; its shortest digits are those of a number in the interval, so they tell it from all others.
They are whole exactly if the double is, and below ten to the twenty-first exactly if it is.
-/

namespace LuaHost.Decimal

/-! ### Exact values -/

/-- The value of a ratio. -/
def Ratio.value (a : Ratio) : ℚ := a.num / a.den

/-- The magnitude of a double. -/
def Binary.value (b : Binary) : ℚ := b.mantissa * 2 ^ b.exponent

/-- What the parts of a double can be. -/
structure Binary.Proper (b : Binary) : Prop where
  small : b.mantissa < 2 ^ 53
  low : -1074 ≤ b.exponent
  high : b.exponent ≤ 971
  normal : -1074 < b.exponent → 2 ^ 52 ≤ b.mantissa
  narrow : b.narrowBelow = true ↔ b.mantissa = 2 ^ 52 ∧ -1074 < b.exponent

theorem shape_proper {x : Float} {b : Binary} (finite : shape x = .finite b) : b.Proper := by
  rw [shape, shapeOfBits] at finite
  have fraction : (x.toBits &&& 0xfffffffffffff).toNat < 2 ^ 52 := by
    rw [UInt64.toNat_and]
    exact Nat.and_lt_two_pow _ (by decide)
  have biased : ((x.toBits >>> 52) &&& 0x7ff).toNat < 2 ^ 11 := by
    rw [UInt64.toNat_and]
    exact Nat.and_lt_two_pow _ (by decide)
  generalize (x.toBits &&& 0xfffffffffffff).toNat = f at finite fraction
  generalize ((x.toBits >>> 52) &&& 0x7ff).toNat = e at finite biased
  split at finite
  · split at finite <;> cases finite
  · next special =>
      have special : e ≠ 0x7ff := by simpa using special
      split at finite
      · cases finite
        refine ⟨?_, ?_, ?_, ?_, ?_⟩ <;> dsimp only
        · omega
        · omega
        · omega
        · omega
        · simp
      · next normal =>
          have normal : e ≠ 0 := by simpa using normal
          have implicit : Nat.pow 2 52 = 2 ^ 52 := rfl
          rw [implicit] at finite
          cases finite
          refine ⟨?_, ?_, ?_, ?_, ?_⟩ <;> dsimp only
          · omega
          · omega
          · omega
          · omega
          · simp only [Bool.and_eq_true, beq_iff_eq, decide_eq_true_eq]
            omega

namespace Ratio
variable {a : Ratio}

theorem scaled_value (m : Nat) (e : Int) : 0 < (scaled m e).den ∧ (scaled m e).value = m * 2 ^ e := by
  cases e with
  | ofNat e =>
      refine ⟨Nat.one_pos, ?_⟩
      simp [scaled, value]
  | negSucc e =>
      refine ⟨Nat.two_pow_pos _, ?_⟩
      simp [scaled, value, zpow_negSucc, div_eq_mul_inv]

theorem shiftDown_value (positive : 0 < a.den) (place : Int) :
    0 < (a.shiftDown place).den ∧ (a.shiftDown place).value = a.value / 10 ^ place := by
  cases place with
  | ofNat p =>
      refine ⟨Nat.mul_pos positive (Nat.pow_pos (by decide)), ?_⟩
      simp [shiftDown, value, div_div]
  | negSucc p =>
      refine ⟨positive, ?_⟩
      simp [shiftDown, value, zpow_negSucc, div_mul_eq_mul_div]

theorem floor_le (positive : 0 < a.den) : (a.floor : ℚ) ≤ a.value ∧ a.value < a.floor + 1 := by
  have den : (0 : ℚ) < a.den := by exact_mod_cast positive
  rw [value, le_div_iff₀ den, div_lt_iff₀ den]
  constructor
  · exact_mod_cast Nat.div_mul_le_self a.num a.den
  · have above := Nat.lt_div_mul_add positive (a := a.num)
    have above : a.num < (a.floor + 1) * a.den := by rw [floor, Nat.add_mul]; omega
    exact_mod_cast above

theorem atLeastPow_iff (positive : 0 < a.den) (e : Int) : a.atLeastPow e = true ↔ (10 : ℚ) ^ e ≤ a.value := by
  have den : (0 : ℚ) < a.den := by exact_mod_cast positive
  rw [value, le_div_iff₀ den]
  cases e with
  | ofNat p =>
      simp only [atLeastPow, decide_eq_true_eq, Int.ofNat_eq_natCast, zpow_natCast]
      rw [mul_comm]
      exact_mod_cast Iff.rfl
  | negSucc p =>
      have power : (0 : ℚ) < 10 ^ (p + 1) := by positivity
      simp only [atLeastPow, decide_eq_true_eq, zpow_negSucc]
      rw [inv_mul_le_iff₀ power, mul_comm]
      exact_mod_cast Iff.rfl

/-- A number is at least the power of two that its bits tell. -/
theorem two_zpow_le (num : a.num ≠ 0) (den : a.den ≠ 0) :
    (2 : ℚ) ^ ((a.num.log2 : Int) - a.den.log2 - 1) ≤ a.value := by
  have above : (2 : ℚ) ^ a.num.log2 ≤ a.num := by exact_mod_cast Nat.log2_self_le num
  have below : (a.den : ℚ) ≤ 2 ^ (a.den.log2 + 1) := by exact_mod_cast Nat.le_of_lt Nat.lt_log2_self
  have positive : (0 : ℚ) < a.den := by exact_mod_cast Nat.pos_of_ne_zero den
  have split : (a.num.log2 : Int) - a.den.log2 - 1 = (a.num.log2 : Int) - (a.den.log2 + 1 : Nat) := by
    push_cast
    ring
  rw [split, zpow_sub₀ two_ne_zero, zpow_natCast, zpow_natCast, value]
  exact div_le_div₀ (by positivity) above positive below

/-- Ten is a little less than `2 ^ (196 / 59)`, and a little more than `2 ^ (93 / 28)`. -/
theorem ten_zpow_le {e c : Int} (above : 196 * e ≤ 59 * c) (below : 93 * e ≤ 28 * c) : (10 : ℚ) ^ e ≤ 2 ^ c := by
  rcases le_total 0 e with large | small
  · obtain ⟨n, rfl⟩ := Int.eq_ofNat_of_zero_le large
    obtain ⟨k, rfl⟩ := Int.eq_ofNat_of_zero_le (show 0 ≤ c by omega)
    have power : 10 ^ n ≤ 2 ^ k := by
      refine (Nat.pow_le_pow_iff_left (show 59 ≠ 0 by decide)).mp ?_
      calc (10 ^ n) ^ 59 = (10 ^ 59) ^ n := by rw [← pow_mul, ← pow_mul, mul_comm]
        _ ≤ (2 ^ 196) ^ n := Nat.pow_le_pow_left (by norm_num) n
        _ = 2 ^ (196 * n) := (pow_mul ..).symm
        _ ≤ 2 ^ (k * 59) := Nat.pow_le_pow_right (by decide) (by omega)
        _ = (2 ^ k) ^ 59 := pow_mul ..
    exact_mod_cast power
  · obtain ⟨n, rfl⟩ := Int.exists_eq_neg_ofNat small
    rcases le_total 0 c with above | under
    · calc (10 : ℚ) ^ (-(n : Int)) ≤ 1 := zpow_le_one_of_nonpos₀ (by norm_num) small
        _ ≤ 2 ^ c := one_le_zpow₀ (by norm_num) above
    · obtain ⟨k, rfl⟩ := Int.exists_eq_neg_ofNat under
      have power : 2 ^ k ≤ 10 ^ n := by
        refine (Nat.pow_le_pow_iff_left (show 93 ≠ 0 by decide)).mp ?_
        calc (2 ^ k) ^ 93 = (2 ^ 93) ^ k := by rw [← pow_mul, ← pow_mul, mul_comm]
          _ ≤ (10 ^ 28) ^ k := Nat.pow_le_pow_left (by norm_num) k
          _ = 10 ^ (28 * k) := (pow_mul ..).symm
          _ ≤ 10 ^ (n * 93) := Nat.pow_le_pow_right (by decide) (by omega)
          _ = (10 ^ n) ^ 93 := pow_mul ..
      rw [zpow_neg, zpow_neg, zpow_natCast, zpow_natCast]
      exact inv_anti₀ (by positivity) (by exact_mod_cast power)

/-- A number has so many digits before its point at least as are found; a number of one or more has one. -/
theorem decimalLength_le (num : a.num ≠ 0) (den : a.den ≠ 0) (low : -1100 ≤ (a.num.log2 : Int) - a.den.log2)
    (high : (a.num.log2 : Int) - a.den.log2 ≤ 1100) :
    (10 : ℚ) ^ (a.decimalLength - 1) ≤ a.value ∧ (1 ≤ a.value → 1 ≤ a.decimalLength) := by
  have positive := Nat.pos_of_ne_zero den
  have bits := two_zpow_le num den
  rw [decimalLength]
  generalize difference : (a.num.log2 : Int) - a.den.log2 = binary at low high bits
  generalize guessed : binary * 30103 / 100000 = guess
  have least : (10 : ℚ) ^ (guess - 3) ≤ a.value := (ten_zpow_le (by omega) (by omega)).trans bits
  have last : a.atLeastPow (guess - 2 - 1) = true := by
    rw [atLeastPow_iff positive]
    convert least using 2
    ring
  split
  · next k found =>
      obtain ⟨holds, before, after, candidates, larger⟩ := List.find?_eq_some_iff_append.mp found
      refine ⟨(atLeastPow_iff positive _).mp holds, fun one => ?_⟩
      by_contra small
      have ordered : [guess + 3, guess + 2, guess + 1, guess, guess - 1, guess - 2].Pairwise (· > ·) := by
        simp
        omega
      have whole : a.den.log2 ≤ a.num.log2 := by
        rw [value, one_le_div₀ (by exact_mod_cast positive)] at one
        exact (Nat.le_log2 num).mpr ((Nat.log2_self_le den).trans (by exact_mod_cast one))
      have candidate : (1 : Int) ∈ [guess + 3, guess + 2, guess + 1, guess, guess - 1, guess - 2] := by
        have window := List.mem_of_find?_eq_some found
        simp only [List.mem_cons, List.not_mem_nil, or_false] at window ⊢
        omega
      rw [candidates, List.pairwise_append, List.pairwise_cons] at ordered
      rw [candidates, List.mem_append, List.mem_cons] at candidate
      rcases candidate with earlier | here | later
      · have missed := larger 1 earlier
        rw [Bool.not_eq_true', ← Bool.not_eq_true, atLeastPow_iff positive] at missed
        exact missed (by simpa using one)
      · omega
      · have smaller := ordered.2.1.1 1 later
        omega
  · next absent => exact absurd last (List.find?_eq_none.mp absent _ (by simp))

/-- `count · 10 ^ place`. -/
def grid (count : Nat) (place : Int) : Ratio :=
  match place with
  | .ofNat p => ⟨count * Nat.pow 10 p, 1⟩
  | .negSucc p => ⟨count, Nat.pow 10 (p + 1)⟩

theorem grid_value (count : Nat) (place : Int) :
    0 < (grid count place).den ∧ (grid count place).value = count * 10 ^ place := by
  cases place with
  | ofNat p => exact ⟨Nat.one_pos, by simp [grid, value]⟩
  | negSucc p => exact ⟨Nat.pow_pos (by decide), by simp [grid, value, zpow_negSucc, div_eq_mul_inv]⟩

/-- Multiples of a ratio are compared across. -/
theorem cross_le {u p : Ratio} (unit : 0 < u.den) (point : 0 < p.den) (k : Nat) :
    (k * u.num * p.den ≤ p.num * u.den ↔ (k : ℚ) * u.value ≤ p.value) ∧
      (p.num * u.den ≤ k * u.num * p.den ↔ p.value ≤ (k : ℚ) * u.value) := by
  have unit : (0 : ℚ) < u.den := by exact_mod_cast unit
  have point : (0 : ℚ) < p.den := by exact_mod_cast point
  rw [value, value, ← mul_div_assoc, div_le_div_iff₀ unit point, div_le_div_iff₀ point unit]
  constructor <;> exact_mod_cast Iff.rfl

end Ratio

namespace Binary
variable {b b' : Binary}

theorem ratio_value (b : Binary) : 0 < b.ratio.den ∧ b.ratio.value = b.value :=
  Ratio.scaled_value b.mantissa b.exponent

theorem value_nonneg (b : Binary) : 0 ≤ b.value := by
  rw [value]
  positivity

theorem Proper.ratio_bits (proper : b.Proper) (positive : 0 < b.mantissa) :
    b.ratio.num ≠ 0 ∧ -1100 ≤ (b.ratio.num.log2 : Int) - b.ratio.den.log2 ∧
      (b.ratio.num.log2 : Int) - b.ratio.den.log2 ≤ 1100 := by
  obtain ⟨negative, m, e, narrow⟩ := b
  have small := proper.small
  have low := proper.low
  have high := proper.high
  dsimp only at small low high positive
  cases e with
  | ofNat e =>
      have num : m * 2 ^ e ≠ 0 := Nat.ne_of_gt (Nat.mul_pos positive (Nat.two_pow_pos _))
      have bits : (m * 2 ^ e).log2 < 53 + e := by
        rw [Nat.log2_lt num, Nat.pow_add]
        exact Nat.mul_lt_mul_of_pos_right small (Nat.two_pow_pos _)
      have one : (1 : Nat).log2 = 0 := by decide
      have high : (e : Int) ≤ 971 := high
      refine ⟨num, ?_, ?_⟩ <;> simp only [ratio, Ratio.scaled, Nat.pow_eq, one] <;> omega
  | negSucc e =>
      have num : m ≠ 0 := Nat.ne_of_gt positive
      have bits : m.log2 < 53 := (Nat.log2_lt num).mpr small
      have den : (2 ^ (e + 1)).log2 = e + 1 := Nat.log2_two_pow
      have low : e ≤ 1073 := by omega
      refine ⟨num, ?_, ?_⟩ <;> simp only [ratio, Ratio.scaled, Nat.pow_eq, den] <;> omega

/-- The digits before the point of a double that is not zero. -/
theorem Proper.decimalLength_le (proper : b.Proper) (positive : 0 < b.mantissa) :
    (10 : ℚ) ^ (b.ratio.decimalLength - 1) ≤ b.value ∧ (1 ≤ b.value → 1 ≤ b.ratio.decimalLength) := by
  obtain ⟨num, low, high⟩ := proper.ratio_bits positive
  obtain ⟨den, value⟩ := b.ratio_value
  rw [← value]
  exact Ratio.decimalLength_le num (Nat.ne_of_gt den) low high

/-! ### The numbers that a double is nearest to -/

/-- The least number that a double can be nearest to. -/
def least (b : Binary) : ℚ := b.value - (if b.narrowBelow then 1 / 4 else 1 / 2) * 2 ^ b.exponent

/-- The largest number that a double can be nearest to. -/
def largest (b : Binary) : ℚ := b.value + 1 / 2 * 2 ^ b.exponent

/-- A number is read as a double. Between two doubles that are as near, the one with the even mantissa is taken. -/
def Nearest (b : Binary) (q : ℚ) : Prop :=
  if b.mantissa % 2 = 0 then b.least ≤ q ∧ q ≤ b.largest else b.least < q ∧ q < b.largest

theorem Nearest.bounds {q : ℚ} (nearest : b.Nearest q) : b.least ≤ q ∧ q ≤ b.largest := by
  rw [Nearest] at nearest
  split at nearest
  · exact nearest
  · exact ⟨nearest.1.le, nearest.2.le⟩

theorem nearest_of_inside {q : ℚ} (above : b.least < q) (below : q < b.largest) : b.Nearest q := by
  rw [Nearest]
  split
  · exact ⟨above.le, below.le⟩
  · exact ⟨above, below⟩

theorem value_inside (b : Binary) : b.least < b.value ∧ b.value < b.largest := by
  have unit : (0 : ℚ) < 2 ^ b.exponent := by positivity
  constructor
  · rw [least]
    split <;> linarith
  · rw [largest]
    linarith

theorem Nearest.pos {q : ℚ} (nearest : b.Nearest q) (positive : 0 < b.mantissa) : 0 < q := by
  refine lt_of_lt_of_le ?_ nearest.bounds.1
  have unit : (0 : ℚ) < 2 ^ b.exponent := by positivity
  have one : (1 : ℚ) ≤ b.mantissa := by exact_mod_cast positive
  rw [least, value, ← sub_mul]
  refine mul_pos ?_ unit
  split <;> linarith

theorem Nearest.count_pos {count : Nat} {place : Int} (nearest : b.Nearest (count * 10 ^ place))
    (positive : 0 < b.mantissa) : 0 < count := by
  refine Nat.pos_of_ne_zero fun zero => ?_
  have above := nearest.pos positive
  rw [zero, Nat.cast_zero, zero_mul] at above
  exact above.false

/-- The bounds of the interval in quarters of the last place. -/
theorem covers_eq (b : Binary) (count : Nat) (place : Int) : b.covers count place =
    (let unit : Ratio := .scaled 1 (b.exponent - 2)
    let point := Ratio.grid count place
    let left := (4 * b.mantissa - if b.narrowBelow then 1 else 2) * unit.num * point.den
    let middle := point.num * unit.den
    let right := (4 * b.mantissa + 2) * unit.num * point.den
    if b.mantissa % 2 == 0 then left ≤ middle && middle ≤ right else left < middle && middle < right) := by
  cases place <;> rfl

theorem covers_iff (positive : 0 < b.mantissa) (count : Nat) (place : Int) :
    b.covers count place = true ↔ b.Nearest (count * 10 ^ place) := by
  rw [covers_eq]
  obtain ⟨unitDen, unitValue⟩ := Ratio.scaled_value 1 (b.exponent - 2)
  obtain ⟨pointDen, pointValue⟩ := Ratio.grid_value count place
  generalize Ratio.scaled 1 (b.exponent - 2) = unit at unitDen unitValue
  generalize Ratio.grid count place = point at pointDen pointValue
  have quarter : unit.value * 4 = 2 ^ b.exponent := by
    rw [unitValue, zpow_sub₀ two_ne_zero]
    norm_num
  have low : ((4 * b.mantissa - (if b.narrowBelow then 1 else 2) : Nat) : ℚ) * unit.value = b.least := by
    have enough : (if b.narrowBelow then 1 else 2) ≤ 4 * b.mantissa := by split <;> omega
    rw [least, value, ← quarter, Nat.cast_sub enough]
    split <;> push_cast <;> ring
  have high : ((4 * b.mantissa + 2 : Nat) : ℚ) * unit.value = b.largest := by
    rw [largest, value, ← quarter]
    push_cast
    ring
  obtain ⟨lowLe, leLow⟩ := Ratio.cross_le unitDen pointDen (4 * b.mantissa - if b.narrowBelow then 1 else 2)
  obtain ⟨highLe, leHigh⟩ := Ratio.cross_le unitDen pointDen (4 * b.mantissa + 2)
  rw [low, pointValue] at lowLe leLow
  rw [high, pointValue] at highLe leHigh
  rw [Nearest]
  by_cases even : b.mantissa % 2 = 0
  · simp only [even, beq_self_eq_true, if_true, Bool.and_eq_true, decide_eq_true_eq, lowLe, leHigh]
  · have odd : (b.mantissa % 2 == 0) = false := by simpa using even
    simp only [odd, if_neg even, Bool.false_eq_true, if_false, Bool.and_eq_true, decide_eq_true_eq, ← not_le, leLow,
      highLe]

/-! ### Whole doubles -/

/-- A double is a whole number. -/
def Whole (b : Binary) : Prop := ∃ k : Nat, b.value = k

theorem whole_iff (b : Binary) :
    b.Whole ↔ b.mantissa * Nat.pow 2 b.exponent.toNat % Nat.pow 2 (-b.exponent).toNat = 0 := by
  obtain ⟨negative, m, e, narrow⟩ := b
  rw [Nat.pow_eq, Nat.pow_eq, Whole, value]
  dsimp only
  cases e with
  | ofNat e =>
      have none : (-Int.ofNat e).toNat = 0 := by simp
      rw [none, pow_zero, Nat.mod_one]
      refine ⟨fun _ => rfl, fun _ => ⟨m * 2 ^ e, ?_⟩⟩
      simp
  | negSucc e =>
      have none : (Int.negSucc e).toNat = 0 := rfl
      have all : (-Int.negSucc e).toNat = e + 1 := rfl
      have unit : (2 : ℚ) ^ (e + 1) ≠ 0 := by positivity
      rw [none, all, pow_zero, mul_one, zpow_negSucc, ← div_eq_mul_inv, ← Nat.dvd_iff_mod_eq_zero]
      constructor
      · rintro ⟨k, same⟩
        rw [div_eq_iff unit] at same
        exact ⟨k, by rw [mul_comm]; exact_mod_cast same⟩
      · rintro ⟨k, rfl⟩
        refine ⟨k, ?_⟩
        push_cast
        exact mul_div_cancel_left₀ _ unit

/-- A double that is nearest to a whole number is whole itself: if it has a fraction, it is further away from the
next whole number than half a unit in its last place. -/
theorem Nearest.whole {k : Nat} (nearest : b.Nearest k) : b.Whole := by
  obtain ⟨above, below⟩ := nearest.bounds
  obtain ⟨negative, m, e, narrow⟩ := b
  cases e with
  | ofNat e =>
      refine ⟨m * 2 ^ e, ?_⟩
      simp [value]
  | negSucc e =>
      refine ⟨k, ?_⟩
      have unit : (0 : ℚ) < 2 ^ (e + 1) := by positivity
      have half : ((m : ℚ) - 1 / 2) / 2 ^ (e + 1) ≤ k := by
        refine le_trans ?_ above
        rw [least, value, zpow_negSucc, div_eq_mul_inv, sub_mul]
        have part : (if narrow then (1 / 4 : ℚ) else 1 / 2) ≤ 1 / 2 := by split <;> norm_num
        exact sub_le_sub_left (mul_le_mul_of_nonneg_right part (by positivity)) _
      have half' : (k : ℚ) ≤ ((m : ℚ) + 1 / 2) / 2 ^ (e + 1) := by
        refine below.trans_eq ?_
        rw [largest, value, zpow_negSucc]
        ring
      rw [div_le_iff₀ unit] at half
      rw [le_div_iff₀ unit] at half'
      have low : (m : ℚ) < (k * 2 ^ (e + 1) : Nat) + 1 := by
        push_cast
        linarith
      have high : ((k * 2 ^ (e + 1) : Nat) : ℚ) < m + 1 := by
        push_cast
        linarith
      have low : m < k * 2 ^ (e + 1) + 1 := by exact_mod_cast low
      have high : k * 2 ^ (e + 1) < m + 1 := by exact_mod_cast high
      obtain rfl : m = k * 2 ^ (e + 1) := by omega
      rw [value, zpow_negSucc]
      push_cast
      exact mul_inv_cancel_right₀ unit.ne' _

/-! ### Doubles are apart -/

/-- The unit in the last place of a larger exponent is twice as large at least. -/
theorem two_mul_unit_le {e e' : Int} (less : e < e') : 2 * (2 : ℚ) ^ e ≤ 2 ^ e' := by
  rw [mul_comm, ← zpow_add_one₀ two_ne_zero]
  exact zpow_le_zpow_right₀ one_le_two less

/-- Of two doubles the one with the larger exponent is the larger one. -/
theorem Proper.exponent_le (proper : b.Proper) (proper' : b'.Proper) (less : b.value ≤ b'.value) :
    b.exponent ≤ b'.exponent := by
  by_contra above
  have unit : (0 : ℚ) < 2 ^ b'.exponent := by positivity
  have double := two_mul_unit_le (not_le.mp above)
  have normal : (2 ^ 52 : ℚ) ≤ b.mantissa := by
    exact_mod_cast proper.normal (lt_of_le_of_lt proper'.low (not_le.mp above))
  have small : (b'.mantissa : ℚ) < 2 ^ 53 := by exact_mod_cast proper'.small
  have larger : b'.value < b.value := by
    calc b'.value < 2 ^ 53 * 2 ^ b'.exponent := mul_lt_mul_of_pos_right small unit
      _ = 2 ^ 52 * (2 * 2 ^ b'.exponent) := by ring
      _ ≤ 2 ^ 52 * 2 ^ b.exponent := mul_le_mul_of_nonneg_left double (by positivity)
      _ ≤ b.value := mul_le_mul_of_nonneg_right normal (by positivity)
  exact absurd less larger.not_ge

/-- The larger one of two doubles with different exponents is normal, and the next smaller double is in reach of
neither. -/
theorem Proper.apart_of_exponent (proper : b.Proper) (proper' : b'.Proper) (below : b.exponent < b'.exponent) :
    b.largest < b'.least ∨ b.largest = b'.least ∧ b.mantissa % 2 = 1 := by
  have unit : (0 : ℚ) < 2 ^ b.exponent := by positivity
  have double := two_mul_unit_le below
  have normal := proper'.normal (lt_of_le_of_lt proper.low below)
  have upper : (2 ^ 53 - 1 / 2) * (2 : ℚ) ^ b.exponent ≤ b'.least := by
    rw [least, value, ← sub_mul]
    by_cases power : b'.mantissa = 2 ^ 52
    · rw [if_pos (proper'.narrow.mpr ⟨power, lt_of_le_of_lt proper.low below⟩), power]
      push_cast
      linarith
    · have next : (2 ^ 52 + 1 : ℚ) ≤ b'.mantissa := by
        have next : 2 ^ 52 + 1 ≤ b'.mantissa := by omega
        exact_mod_cast next
      have wide : ¬ b'.narrowBelow = true := fun narrow => power (proper'.narrow.mp narrow).1
      rw [if_neg wide]
      nlinarith
  have last : b.mantissa ≤ 2 ^ 53 - 1 := by
    have small := proper.small
    omega
  rcases last.lt_or_eq with inner | border
  · left
    refine lt_of_lt_of_le ?_ upper
    have inner : (b.mantissa : ℚ) + 1 ≤ 2 ^ 53 - 1 := by
      have inner : b.mantissa + 1 + 1 ≤ 2 ^ 53 := by omega
      have inner : (b.mantissa : ℚ) + 1 + 1 ≤ 2 ^ 53 := by exact_mod_cast inner
      linarith
    rw [largest, value, ← add_mul]
    exact mul_lt_mul_of_pos_right (by linarith) unit
  · have ends : b.largest ≤ b'.least := by
      rw [largest, value, border, ← add_mul]
      norm_num at upper ⊢
      exact upper
    rcases ends.lt_or_eq with strict | touch
    · exact .inl strict
    · exact .inr ⟨touch, by rw [border]; norm_num⟩

/-- Between two doubles with one exponent there are the halves of a unit in the last place of each. -/
theorem Proper.apart_of_mantissa (proper : b.Proper) (proper' : b'.Proper) (same : b.exponent = b'.exponent)
    (unlike : b.mantissa < b'.mantissa) :
    b.largest < b'.least ∨ b.largest = b'.least ∧ (b.mantissa % 2 = 1 ∨ b'.mantissa % 2 = 1) := by
  have unit : (0 : ℚ) < 2 ^ b.exponent := by positivity
  have wide : ¬ b'.narrowBelow = true := by
    intro narrow
    obtain ⟨power, above⟩ := proper'.narrow.mp narrow
    have normal := proper.normal (same ▸ above)
    omega
  rw [largest, least, if_neg wide, value, value, ← same, ← add_mul, ← sub_mul]
  rcases (Nat.succ_le_of_lt unlike).lt_or_eq with further | next
  · left
    have further : (b.mantissa : ℚ) + 1 < b'.mantissa := by exact_mod_cast further
    exact mul_lt_mul_of_pos_right (by linarith) unit
  · right
    rw [← next]
    refine ⟨?_, by omega⟩
    push_cast
    ring

/-- The intervals of two doubles do not meet, but perhaps at their ends, and then not both have their end. -/
theorem Proper.apart (proper : b.Proper) (proper' : b'.Proper) (less : b.value < b'.value) :
    b.largest < b'.least ∨ b.largest = b'.least ∧ (b.mantissa % 2 = 1 ∨ b'.mantissa % 2 = 1) := by
  rcases (proper.exponent_le proper' less.le).lt_or_eq with below | same
  · exact (proper.apart_of_exponent proper' below).imp_right fun touch => ⟨touch.1, .inl touch.2⟩
  · refine proper.apart_of_mantissa proper' same ?_
    have unit : (0 : ℚ) < 2 ^ b.exponent := by positivity
    rw [value, value, ← same] at less
    exact_mod_cast lt_of_mul_lt_mul_right less unit.le

theorem Proper.largest_le (proper : b.Proper) (proper' : b'.Proper) (less : b.value < b'.value) :
    b.largest ≤ b'.least := by
  rcases proper.apart proper' less with apart | ⟨touch, -⟩
  · exact apart.le
  · exact touch.le

/-- No number is read as two doubles. -/
theorem Proper.nearest_unique (proper : b.Proper) (proper' : b'.Proper) {q : ℚ} (nearest : b.Nearest q)
    (nearest' : b'.Nearest q) : b.value = b'.value := by
  by_contra unlike
  wlog less : b.value < b'.value generalizing b b'
  · exact this proper' proper nearest' nearest (Ne.symm unlike) (lt_of_le_of_ne (not_lt.mp less) (Ne.symm unlike))
  rcases proper.apart proper' less with apart | ⟨touch, odd⟩
  · exact absurd (nearest.bounds.2.trans_lt apart) (not_lt.mpr nearest'.bounds.1)
  · have below := nearest.bounds.2
    have above := nearest'.bounds.1
    rcases odd with odd | odd
    · rw [Nearest, if_neg (by omega)] at nearest
      linarith [nearest.2]
    · rw [Nearest, if_neg (by omega)] at nearest'
      linarith [nearest'.1]

/-- The parts of a double follow from its value. -/
theorem Proper.parts (proper : b.Proper) (proper' : b'.Proper) (same : b.value = b'.value) :
    b.mantissa = b'.mantissa ∧ b.exponent = b'.exponent := by
  have exponent := le_antisymm (proper.exponent_le proper' same.le) (proper'.exponent_le proper same.ge)
  have unit : (2 : ℚ) ^ b.exponent ≠ 0 := by positivity
  rw [value, value, ← exponent] at same
  exact ⟨by exact_mod_cast mul_right_cancel₀ unit same, exponent⟩

/-! ### The shortest digits -/

theorem gridPoint?_eq_some {length : Int} {n : Nat} {d : Digits} (found : b.gridPoint? length n = some d) :
    ∃ count, d = .ofGrid count (length - n) ∧ b.covers count (length - n) = true := by
  rw [gridPoint?] at found
  split at found
  · next lower =>
      cases found
      exact ⟨_, rfl, (Bool.and_eq_true_iff.mp lower).1⟩
  · split at found
    · next upper =>
        cases found
        exact ⟨_, rfl, upper⟩
    · cases found

/-- A number of digits is enough if one of the numbers next to the value is read as it. -/
theorem gridPoint?_isSome {length : Int} {n : Nat}
    (near : b.covers (b.ratio.shiftDown (length - n)).floor (length - n) = true ∨
      b.covers ((b.ratio.shiftDown (length - n)).floor + 1) (length - n) = true) :
    (b.gridPoint? length n).isSome = true := by
  rw [gridPoint?]
  split
  · rfl
  · next other =>
      split
      · rfl
      · next upper => simp_all

/-- Seventeen digits are always enough: the numbers with so many are closer to each other than the ends of the
interval of a double. -/
theorem Proper.seventeen (proper : b.Proper) (positive : 0 < b.mantissa) :
    (b.gridPoint? b.ratio.decimalLength 17).isSome = true := by
  refine gridPoint?_isSome ?_
  rw [covers_iff positive, covers_iff positive]
  have digits := (proper.decimalLength_le positive).1
  generalize b.ratio.decimalLength = length at digits
  have step : (10 : ℚ) ^ (length - 17) * 10 ^ 16 = 10 ^ (length - 1) := by
    rw [← zpow_natCast, ← zpow_add₀ (by norm_num)]
    congr 1
    push_cast
    ring
  obtain ⟨den, ratio⟩ := b.ratio_value
  obtain ⟨shiftedDen, shifted⟩ := Ratio.shiftDown_value den (length - 17)
  obtain ⟨floor, next⟩ := Ratio.floor_le shiftedDen
  push_cast
  generalize (b.ratio.shiftDown (length - 17)).floor = below at floor next
  rw [shifted, ratio] at floor next
  have grid : (0 : ℚ) < 10 ^ (length - 17) := by positivity
  rw [le_div_iff₀ grid] at floor
  rw [div_lt_iff₀ grid] at next
  have unit : (0 : ℚ) < 2 ^ b.exponent := by positivity
  obtain ⟨inside, inside'⟩ := b.value_inside
  by_contra none
  rw [not_or] at none
  have lower : (below : ℚ) * 10 ^ (length - 17) ≤ b.least := by
    by_contra above
    exact none.1 (nearest_of_inside (not_le.mp above) (floor.trans_lt inside'))
  have upper : b.largest ≤ ((below : ℚ) + 1) * 10 ^ (length - 17) := by
    by_contra under
    exact none.2 (nearest_of_inside (inside.trans next) (not_le.mp under))
  have small : (b.mantissa : ℚ) < 2 ^ 53 := by exact_mod_cast proper.small
  rw [least] at lower
  rw [largest] at upper
  rw [value] at lower upper digits
  split at lower
  · next narrow =>
      have power : (b.mantissa : ℚ) = 2 ^ 52 := by exact_mod_cast (proper.narrow.mp narrow).1
      rw [power] at lower upper digits
      nlinarith
  · nlinarith

/-- The first of some numbers that something is found for. -/
theorem findSome?_range {α : Type} {f : Nat → Option α} {n : Nat} {x : α}
    (found : (List.range n).findSome? f = some x) : ∃ i < n, f i = some x ∧ ∀ j < i, f j = none := by
  induction n with
  | zero => cases found
  | succ n ih =>
      rw [List.range_succ, List.findSome?_append] at found
      cases earlier : (List.range n).findSome? f with
      | some y =>
          rw [earlier] at found
          cases found
          obtain ⟨i, below, here, before⟩ := ih earlier
          exact ⟨i, Nat.lt_succ_of_lt below, here, before⟩
      | none =>
          rw [earlier] at found
          have here : f n = some x := by simpa using found
          refine ⟨n, Nat.lt_succ_self n, here, fun j below => ?_⟩
          exact List.findSome?_eq_none_iff.mp earlier j (List.mem_range.mpr below)

/-- The shortest digits are those of a number that is read as the double, and fewer are not enough. -/
theorem Proper.shortest_grid (proper : b.Proper) (positive : 0 < b.mantissa) :
    ∃ (count n : Nat), b.shortest = .ofGrid count (b.ratio.decimalLength - (n + 1 : Nat)) ∧
      b.Nearest (count * 10 ^ (b.ratio.decimalLength - (n + 1 : Nat))) ∧
      ∀ j < n, b.gridPoint? b.ratio.decimalLength (j + 1) = none := by
  rw [shortest, if_neg (Nat.ne_of_gt positive)]
  dsimp only
  cases found : (List.range 17).findSome? fun n => b.gridPoint? b.ratio.decimalLength (n + 1) with
  | none =>
      have absent := List.findSome?_eq_none_iff.mp found 16 (by decide)
      have enough := proper.seventeen positive
      rw [absent] at enough
      cases enough
  | some d =>
      obtain ⟨n, -, here, before⟩ := findSome?_range found
      obtain ⟨count, same, covers⟩ := gridPoint?_eq_some here
      exact ⟨count, n, same, (covers_iff positive _ _).mp covers, before⟩

/-- A whole double has shortest digits without a fraction: as soon as they reach to the point, they are its own. -/
theorem Proper.shortest_whole (proper : b.Proper) (positive : 0 < b.mantissa) (whole : b.Whole) :
    ∃ count place : Nat, b.shortest = .ofGrid count place ∧ b.Nearest (count * 10 ^ (place : Int)) := by
  obtain ⟨k, whole⟩ := whole
  obtain ⟨count, n, same, nearest, before⟩ := proper.shortest_grid positive
  have one : 1 ≤ b.ratio.decimalLength := by
    refine (proper.decimalLength_le positive).2 ?_
    have unit : (0 : ℚ) < 2 ^ b.exponent := by positivity
    have above : 0 < b.value := mul_pos (by exact_mod_cast positive) unit
    rw [whole] at above ⊢
    exact_mod_cast above
  have reached : ((n + 1 : Nat) : Int) ≤ b.ratio.decimalLength := by
    by_contra beyond
    obtain ⟨length, exact⟩ := Int.eq_ofNat_of_zero_le (show 0 ≤ b.ratio.decimalLength - 1 by omega)
    have missed := before length (by omega)
    have hit : (b.gridPoint? b.ratio.decimalLength (length + 1)).isSome = true := by
      refine gridPoint?_isSome (.inl ?_)
      have origin : b.ratio.decimalLength - (length + 1 : Nat) = 0 := by omega
      obtain ⟨den, ratio⟩ := b.ratio_value
      obtain ⟨shiftedDen, shifted⟩ := Ratio.shiftDown_value den 0
      obtain ⟨floor, next⟩ := Ratio.floor_le shiftedDen
      rw [origin, covers_iff positive]
      generalize (b.ratio.shiftDown 0).floor = below at floor next
      rw [shifted, ratio, whole, zpow_zero, div_one] at floor next
      have floor : below ≤ k := by exact_mod_cast floor
      have next : k < below + 1 := by exact_mod_cast next
      obtain rfl : below = k := by omega
      rw [zpow_zero, mul_one, ← whole]
      exact nearest_of_inside b.value_inside.1 b.value_inside.2
    rw [missed] at hit
    cases hit
  obtain ⟨place, exact⟩ := Int.eq_ofNat_of_zero_le (show 0 ≤ b.ratio.decimalLength - (n + 1 : Nat) by omega)
  rw [exact] at same nearest
  exact ⟨count, place, same, nearest⟩

/-- The shortest digits do not depend on the sign. -/
theorem Proper.shortest_eq (proper : b.Proper) (proper' : b'.Proper) (same : b.value = b'.value) :
    b.shortest = b'.shortest := by
  obtain ⟨mantissa, exponent⟩ := proper.parts proper' same
  have narrow : b.narrowBelow = b'.narrowBelow := by
    rw [Bool.eq_iff_iff, proper.narrow, proper'.narrow, mantissa, exponent]
  cases b
  cases b'
  cases mantissa
  cases exponent
  cases narrow
  rfl

/-! ### Ten to the twenty-first -/

/-- The double from which on the host writes exponents. -/
def tenTo21 : Binary := ⟨false, 5 ^ 21 * 2 ^ 4, 17, false⟩

theorem tenTo21_proper : tenTo21.Proper := ⟨by decide, by decide, by decide, fun _ => by decide, by decide⟩

theorem tenTo21_value : tenTo21.value = 10 ^ 21 := by
  rw [tenTo21, value]
  norm_num

theorem tenTo21_shortest : tenTo21.shortest = ⟨[1], 22⟩ := by decide +kernel

/-- The numbers that are read as a double are on the same side of ten to the twenty-first as it is. -/
theorem Proper.below_iff (proper : b.Proper) {q : ℚ} (nearest : b.Nearest q) (unlike : b.value ≠ 10 ^ 21) :
    q < 10 ^ 21 ↔ b.value < 10 ^ 21 := by
  have edge := tenTo21_value
  have inside := tenTo21.value_inside
  rw [edge] at inside
  rcases unlike.lt_or_gt with less | greater
  · have below := proper.largest_le tenTo21_proper (by rwa [edge])
    exact ⟨fun _ => less, fun _ => (nearest.bounds.2.trans below).trans_lt inside.1⟩
  · have above := tenTo21_proper.largest_le proper (by rwa [edge])
    have larger := (inside.2.trans_le above).trans_le nearest.bounds.1
    exact ⟨fun smaller => absurd smaller larger.not_gt, fun smaller => absurd smaller greater.not_gt⟩

end Binary

end LuaHost.Decimal
