import LuaHost.Proofs.Doubles
import LuaHost.Proofs.ShortestDigits
/-!
How whole numbers are read as doubles. A mantissa of more than 53 bits is cut off, and two residual bits tell on which
side of the middle the number is that it was cut off from; so it is rounded to the double that is nearest to this
number. Whole numbers up to `2 ^ 53` are doubles themselves, and from the middle between the largest double and the
next power of two on they are read as infinity.
-/

namespace LuaHost.Decimal

open Float.Model Float.Model.UnpackedFloat

/-! ### Cutting off -/

/-- The numbers that a mantissa with its two residual bits can have been cut off from. -/
def CutFrom (em : ExtendedMantissa) (q : ℚ) : Prop :=
  match em.roundBit, em.stickyBit with
  | false, false => q = em.mantissa
  | false, true => em.mantissa < q ∧ q < em.mantissa + 1 / 2
  | true, false => q = em.mantissa + 1 / 2
  | true, true => em.mantissa + 1 / 2 < q ∧ q < em.mantissa + 1

/-- A mantissa is what a number is rounded to: none is nearer to it, and one that is as near is odd. -/
def RoundedFrom (m : Nat) (q : ℚ) : Prop :=
  if m % 2 = 0 then m - 1 / 2 ≤ q ∧ q ≤ m + 1 / 2 else m - 1 / 2 < q ∧ q < m + 1 / 2

namespace CutFrom
variable {em : ExtendedMantissa} {q : ℚ}

/-- The last bit of the mantissa becomes the bit for the half, and nothing of what this was is lost. -/
theorem shiftRightOne (cut : CutFrom em q) : CutFrom em.shiftRightOne (q / 2) := by
  obtain ⟨m, r, s⟩ := em
  obtain ⟨h, rfl | rfl⟩ := m.even_or_odd'
  · have half : 2 * h / 2 = h := by omega
    cases r <;> cases s <;>
      simp only [CutFrom, ExtendedMantissa.shiftRightOne, half, Nat.mul_mod_right, bne_self_eq_false, Bool.or_false,
        Bool.or_true, Nat.cast_mul, Nat.cast_ofNat] at cut ⊢ <;>
      grind
  · have half : (2 * h + 1) / 2 = h := by omega
    have odd : ((2 * h + 1) % 2 != 0) = true := by simp
    cases r <;> cases s <;>
      simp only [CutFrom, ExtendedMantissa.shiftRightOne, half, odd, Bool.or_false, Bool.or_true, Nat.cast_mul,
        Nat.cast_add, Nat.cast_one, Nat.cast_ofNat] at cut ⊢ <;>
      grind

theorem shiftRight (cut : CutFrom em q) (k : Nat) : CutFrom (em >>> k) (q / 2 ^ k) := by
  induction k with
  | zero => simpa [HShiftRight.hShiftRight, Nat.repeat] using cut
  | succ k ih =>
      have step := ih.shiftRightOne
      rwa [div_div, ← pow_succ] at step

theorem rounded (cut : CutFrom em q) : RoundedFrom em.roundedMantissa q := by
  obtain ⟨m, r, s⟩ := em
  rcases Nat.mod_two_eq_zero_or_one m with parity | parity <;> cases r <;> cases s <;>
    simp only [CutFrom, RoundedFrom, ExtendedMantissa.roundedMantissa, ExtendedMantissa.accuracy,
      Accuracy.roundToNearestEven, parity, Nat.cast_add, Nat.cast_one, Nat.add_zero] at cut ⊢ <;>
    grind

end CutFrom

/-! ### Rounding -/

/-- Whether a double is nearest to a number is told in units in its last place. -/
theorem nearest_mul_iff (b : Binary) (q : ℚ) : b.Nearest (q * 2 ^ b.exponent) ↔
    if b.mantissa % 2 = 0 then b.mantissa - (if b.narrowBelow then 1 / 4 else 1 / 2) ≤ q ∧ q ≤ b.mantissa + 1 / 2
    else b.mantissa - (if b.narrowBelow then 1 / 4 else 1 / 2) < q ∧ q < b.mantissa + 1 / 2 := by
  have unit : (0 : ℚ) < 2 ^ b.exponent := by positivity
  rw [Binary.Nearest, Binary.least, Binary.largest, Binary.value, ← sub_mul, ← add_mul, mul_le_mul_iff_left₀ unit,
    mul_le_mul_iff_left₀ unit, mul_lt_mul_iff_left₀ unit, mul_lt_mul_iff_left₀ unit]

namespace RoundedFrom
variable {m : Nat} {q : ℚ}

theorem bounds (rounded : RoundedFrom m q) : m - 1 / 2 ≤ q ∧ q ≤ m + 1 / 2 := by
  rw [RoundedFrom] at rounded
  split at rounded
  · exact rounded
  · exact ⟨rounded.1.le, rounded.2.le⟩

/-- A number that takes 53 bits is rounded to as many, or else to the next power of two. -/
theorem mantissa (rounded : RoundedFrom m q) (low : 2 ^ 52 ≤ q) (high : q < 2 ^ 53) : 2 ^ 52 ≤ m ∧ m ≤ 2 ^ 53 := by
  obtain ⟨least, largest⟩ := rounded.bounds
  have above : (2 ^ 52 : ℚ) < m + 1 := by linarith
  have below : (m : ℚ) < 2 ^ 53 + 1 := by linarith
  exact ⟨Nat.lt_succ_iff.mp (by exact_mod_cast above), Nat.lt_succ_iff.mp (by exact_mod_cast below)⟩

/-- Below a power of two the doubles are closer to each other, but no number from there is rounded to it. -/
theorem nearest (rounded : RoundedFrom m q) (low : 2 ^ 52 ≤ q) (negative : Bool) (e : Int) :
    Binary.Nearest ⟨negative, m, e, m == 2 ^ 52⟩ (q * 2 ^ e) := by
  rw [nearest_mul_iff]
  dsimp only
  by_cases power : m = 2 ^ 52
  · have high := rounded.bounds.2
    rw [power] at high ⊢
    norm_num at low high ⊢
    exact ⟨by linarith, high⟩
  · have wide : (m == 2 ^ 52) = false := by simpa using power
    rw [wide]
    exact rounded

/-- The next power of two is nearest to the numbers that are rounded up to it. -/
theorem nearest_carried (rounded : RoundedFrom (2 ^ 53) q) (negative : Bool) (e : Int) :
    Binary.Nearest ⟨negative, 2 ^ 52, e + 1, true⟩ (q * 2 ^ e) := by
  obtain ⟨low, high⟩ := rounded.bounds
  have half : q * 2 ^ e = q / 2 * 2 ^ (e + 1) := by
    rw [zpow_add_one₀ two_ne_zero]
    ring
  rw [half, nearest_mul_iff]
  norm_num at low high ⊢
  constructor <;> linarith

end RoundedFrom

section Rounding
variable {M k : Nat} {e : Int}

theorem div_bounds (bits : M.log2 = 52 + k) : (2 ^ 52 : ℚ) ≤ M / 2 ^ k ∧ (M / 2 ^ k : ℚ) < 2 ^ 53 := by
  have present : M ≠ 0 := by
    rintro rfl
    rw [Nat.log2_zero] at bits
    omega
  obtain ⟨above, below⟩ := (Nat.log2_eq_iff present).mp bits
  have split : 52 + k + 1 = 53 + k := by omega
  rw [Nat.pow_add] at above
  rw [split, Nat.pow_add] at below
  rw [le_div_iff₀ (by positivity), div_lt_iff₀ (by positivity)]
  exact ⟨by exact_mod_cast above, by exact_mod_cast below⟩

/-- What a mantissa of 53 bits or more is rounded to is the double nearest to it. -/
theorem roundWithAccuracy_nearest (s : Sign) (negative : Bool) (bits : M.log2 = 52 + k) (low : -1074 ≤ e + k) :
    ∃ m e' positive, roundWithAccuracy Format.binary64 s M e .exact = .finite s m e' positive ∧ m.log2 = 52 ∧
      e + k ≤ e' ∧ Binary.Nearest ⟨negative, m, e', m == 2 ^ 52⟩ (M * 2 ^ e) := by
  have scaled : (M : ℚ) * 2 ^ e = M / 2 ^ k * 2 ^ (e + k) := by
    rw [zpow_add₀ two_ne_zero, zpow_natCast]
    field_simp
  obtain ⟨em, shifted, rounded⟩ : ∃ em, shiftToTargetExponent Format.binary64 M e .exact = (em, e + k) ∧
      RoundedFrom em.roundedMantissa (M / 2 ^ k) := by
    have cut : CutFrom (ExtendedMantissa.ofMantissaAndAccuracy M .exact) M := rfl
    exact ⟨_, Guest.shiftToTargetExponent_of_bits bits low, (cut.shiftRight k).rounded⟩
  obtain ⟨above, below⟩ := div_bounds bits
  obtain ⟨enough, bound⟩ := rounded.mantissa above below
  rw [scaled]
  simp only [roundWithAccuracy, shifted]
  rcases bound.lt_or_eq with fits | carried
  · have high : em.roundedMantissa.log2 = 52 := (Nat.log2_eq_iff (by omega)).mpr ⟨enough, fits⟩
    simp only [Guest.shiftToTargetExponent_eq high low]
    rw [dif_neg (by omega)]
    exact ⟨_, _, by omega, rfl, high, le_rfl, rounded.nearest above negative _⟩
  · -- A mantissa of ones has been rounded up: it takes 54 bits now, and is cut off again.
    have again : shiftToTargetExponent Format.binary64 em.roundedMantissa (e + k) .exact =
        (⟨2 ^ 52, false, false⟩, e + k + 1) := by
      rw [carried]
      exact Guest.shiftToTargetExponent_of_bits (k := 1) Nat.log2_two_pow (by omega)
    simp only [again]
    rw [dif_neg (by decide)]
    rw [carried] at rounded
    exact ⟨2 ^ 52, e + k + 1, by decide, rfl, Nat.log2_two_pow, by omega, rounded.nearest_carried negative _⟩

end Rounding

/-! ### Packing -/

theorem packComponents_toNat (E : BitVec 11) (F : BitVec 52) :
    (UInt64.ofBitVec (packComponents Format.binary64 .positive E F)).toNat = E.toNat * 2 ^ 52 + F.toNat := by
  have joined : (packComponents Format.binary64 .positive E F).toNat = ((0#1 ++ E) ++ F).toNat := rfl
  have front : (0#1 ++ E).toNat = E.toNat := by
    rw [BitVec.toNat_append]
    simp
  refine joined.trans ?_
  rw [BitVec.toNat_append, ← Nat.shiftLeft_add_eq_or_of_lt F.isLt, Nat.shiftLeft_eq, front]

theorem shapeOfBits_packComponents (E : BitVec 11) (F : BitVec 52) :
    shapeOfBits (.ofBitVec (packComponents Format.binary64 .positive E F)) =
      if E.toNat = 0x7ff then if F.toNat = 0 then .infinite false else .nan
      else if E.toNat = 0 then .finite ⟨false, F.toNat, -1074, false⟩
      else .finite ⟨false, F.toNat + 2 ^ 52, (E.toNat : Int) - 1075, F.toNat == 0 && 1 < E.toNat⟩ := by
  have whole := packComponents_toNat E F
  have exponent := E.isLt
  have fraction := F.isLt
  generalize UInt64.ofBitVec (packComponents Format.binary64 .positive E F) = bits at whole
  have sign : (bits >>> 63 == 1) = false := by
    have amount : (63 : UInt64).toNat % 64 = 63 := rfl
    have one : (1 : UInt64).toNat = 1 := rfl
    rw [beq_eq_false_iff_ne, Ne, ← UInt64.toNat_inj, UInt64.toNat_shiftRight, Nat.shiftRight_eq_div_pow, whole, amount,
      one]
    omega
  have biased : ((bits >>> 52) &&& 0x7ff).toNat = E.toNat := by
    have amount : (52 : UInt64).toNat % 64 = 52 := rfl
    have mask : (0x7ff : UInt64).toNat = 2 ^ 11 - 1 := rfl
    rw [UInt64.toNat_and, UInt64.toNat_shiftRight, mask, Nat.and_two_pow_sub_one_eq_mod, Nat.shiftRight_eq_div_pow,
      whole, amount]
    omega
  have kept : (bits &&& 0xfffffffffffff).toNat = F.toNat := by
    have mask : (0xfffffffffffff : UInt64).toNat = 2 ^ 52 - 1 := rfl
    rw [UInt64.toNat_and, mask, Nat.and_two_pow_sub_one_eq_mod, whole]
    omega
  simp only [shapeOfBits, sign, biased, kept, beq_iff_eq, Nat.pow_eq]

/-- A mantissa of 53 bits is read off the double it is packed into, unless this is infinite. -/
theorem shape_pack {m : Nat} {e : Int} (positive : 0 < m) (bits : m.log2 = 52) (low : -1074 < e) :
    shape ⟨Float.Model.pack (.finite .positive m e positive)⟩ =
      if e ≤ 971 then .finite ⟨false, m, e, m == 2 ^ 52⟩ else .infinite false := by
  obtain ⟨above, below⟩ := (Nat.log2_eq_iff (Nat.ne_of_gt positive)).mp bits
  have biased : (e + Format.binary64.exponentBias + Format.binary64.mantissaBitsWithoutImplicit).toNat =
      (e + 1075).toNat := by
    simp only [Format.exponentBias]
    omega
  have packed : UnpackedFloat.pack Format.binary64 (.finite .positive m e positive) =
      if 2 ^ 11 ≤ (e + 1075).toNat + 1 then packedInfinity Format.binary64 .positive
      else packComponents Format.binary64 .positive (BitVec.ofNat 11 (e + 1075).toNat) (BitVec.ofNat 52 m) := by
    simp only [UnpackedFloat.pack, biased, bits]
    rfl
  have seen : shape ⟨Float.Model.pack (.finite .positive m e positive)⟩ =
      shapeOfBits (.ofBitVec (UnpackedFloat.pack Format.binary64 (.finite .positive m e positive))) := rfl
  rw [seen, packed]
  by_cases finite : e ≤ 971
  · have exponent : (BitVec.ofNat 11 (e + 1075).toNat).toNat = (e + 1075).toNat := by
      rw [BitVec.toNat_ofNat]
      exact Nat.mod_eq_of_lt (by omega)
    have fraction : (BitVec.ofNat 52 m).toNat = m - 2 ^ 52 := by
      rw [BitVec.toNat_ofNat]
      omega
    have narrow : (m - 2 ^ 52 == 0 && decide (1 < (e + 1075).toNat)) = (m == 2 ^ 52) := by
      rw [Bool.eq_iff_iff]
      simp only [Bool.and_eq_true, beq_iff_eq, decide_eq_true_eq]
      omega
    have mantissa : m - 2 ^ 52 + 2 ^ 52 = m := by omega
    have shifted : ((e + 1075).toNat : Int) - 1075 = e := by omega
    rw [if_neg (by omega), if_pos finite, shapeOfBits_packComponents, exponent, if_neg (by omega), if_neg (by omega),
      fraction, narrow, mantissa, shifted]
  · rw [if_pos (by omega), if_neg finite, packedInfinity, shapeOfBits_packComponents]
    rfl

/-! ### Whole numbers -/

/-- A double is what a mantissa of 53 bits or more is rounded to, and this has the value of a number. -/
def RoundsTo (n : Nat) (x : Float) : Prop :=
  ∃ M k : Nat, ∃ e : Int, M.log2 = 52 + k ∧ -1074 < e + k ∧ (M : ℚ) * 2 ^ e = n ∧
    x = ⟨Float.Model.pack (roundWithAccuracy Format.binary64 .positive M e .exact)⟩

/-- A number that a double has a place for is multiplied by the double one. -/
theorem ofNat_small {n : Nat} (positive : 0 < n) (small : n < 2 ^ 53) : RoundsTo n (Float.ofNat n) := by
  obtain ⟨present, unpacked⟩ := Guest.floatOfNat_isWhole positive small
  have one : (Float.ofBits 0x3FF0000000000000).toModel.unpack = .finite .positive (2 ^ 52) (-52) (by decide) := rfl
  have product : Float.ofNat n = Guest.floatOfNat n * Float.ofBits 0x3FF0000000000000 := by
    show Float.ofScientific n false 0 = _
    rw [Float.ofScientific, dif_pos ⟨small, by decide⟩]
    rfl
  have multiplied : Float.ofNat n = ⟨Float.Model.pack (UnpackedFloat.mul Format.binary64
      (Guest.floatOfNat n).toModel.unpack (Float.ofBits 0x3FF0000000000000).toModel.unpack)⟩ := product
  have bits : (Guest.mantissaOf n * 2 ^ 52).log2 = 52 + 52 := by
    rw [Guest.log2_mul_two_pow (Guest.mantissaOf_pos positive), Guest.log2_mantissaOf positive small]
  have low := Guest.log2_le small
  rw [unpacked, one] at multiplied
  refine ⟨_, 52, _, bits, ?_, ?_, multiplied⟩
  · rw [Guest.shiftOf]
    omega
  · rw [Guest.mantissaOf, Nat.shiftLeft_eq]
    push_cast
    rw [zpow_add₀ two_ne_zero, zpow_neg, zpow_natCast]
    field_simp
    norm_num

/-- A larger one is rounded from all of its bits. -/
theorem ofNat_large {n : Nat} (large : 2 ^ 53 ≤ n) : RoundsTo n (Float.ofNat n) := by
  have positive : 0 < n := by omega
  have present : n ≠ 0 := by omega
  have through : Float.ofNat n = ⟨Float.Model.pack (UnpackedFloat.ofScientific Format.binary64 n 0)⟩ := by
    show Float.ofScientific n false 0 = _
    rw [Float.ofScientific, dif_neg (by omega)]
    rfl
  have multiplied : UnpackedFloat.ofScientific Format.binary64 n 0 =
      roundWithAccuracy Format.binary64 .positive (n <<< 53 * 10 ^ 0) (-53 + 0) .exact := by
    have near : ¬ (0 : Int) < -((2 ^ Format.binary64.exponentBits : Int) + n.log2) := by
      have size : (2 ^ Format.binary64.exponentBits : Int) = 2048 := rfl
      rw [size]
      omega
    rw [UnpackedFloat.ofScientific, dif_neg present, if_neg (by decide), if_neg near, if_pos (by decide)]
    rfl
  have shifted : n <<< 53 * 10 ^ 0 = n * 2 ^ 53 := by rw [Nat.shiftLeft_eq, pow_zero, mul_one]
  have bits : (n * 2 ^ 53).log2 = 52 + (n.log2 + 1) := by
    rw [Guest.log2_mul_two_pow positive]
    omega
  rw [multiplied, shifted] at through
  refine ⟨_, _, _, bits, by omega, ?_, through⟩
  rw [Nat.cast_mul, mul_assoc]
  norm_num

theorem shape_ofNat_zero : shape (Float.ofNat 0) = .finite ⟨false, 0, -1074, false⟩ := by decide +kernel

theorem shape_ofNat {n : Nat} (positive : 0 < n) : ∃ m e, 2 ^ 52 ≤ m ∧ m < 2 ^ 53 ∧
    Binary.Nearest ⟨false, m, e, m == 2 ^ 52⟩ n ∧
    shape (Float.ofNat n) = if e ≤ 971 then .finite ⟨false, m, e, m == 2 ^ 52⟩ else .infinite false := by
  obtain ⟨M, k, e, bits, low, value, packed⟩ : RoundsTo n (Float.ofNat n) := by
    rcases Nat.lt_or_ge n (2 ^ 53) with small | large
    · exact ofNat_small positive small
    · exact ofNat_large large
  obtain ⟨m, e', present, rounded, high, above, nearest⟩ :=
    roundWithAccuracy_nearest .positive false bits low.le
  obtain ⟨least, largest⟩ := (Nat.log2_eq_iff (Nat.ne_of_gt present)).mp high
  rw [value] at nearest
  rw [packed, rounded, shape_pack present high (by omega)]
  exact ⟨m, e', least, largest, nearest, rfl⟩

/-- Whole numbers up to `2 ^ 53` are doubles themselves. -/
theorem exists_double {n : Nat} (positive : 0 < n) (small : n ≤ 2 ^ 53) : ∃ b : Binary, b.Proper ∧ b.value = n := by
  rcases small.lt_or_eq with below | rfl
  · have low := Guest.log2_le below
    obtain ⟨least, largest⟩ := (Nat.log2_eq_iff (Nat.ne_of_gt (Guest.mantissaOf_pos positive))).mp
      (Guest.log2_mantissaOf positive below)
    have shift : -1074 < -(Guest.shiftOf n : Int) := by
      rw [Guest.shiftOf]
      omega
    refine ⟨⟨false, Guest.mantissaOf n, -(Guest.shiftOf n : Int), Guest.mantissaOf n == 2 ^ 52⟩,
      ⟨largest, shift.le, ?_, fun _ => least, ?_⟩, ?_⟩
    · dsimp only
      omega
    · simpa using fun _ => shift
    · rw [Binary.value, Guest.mantissaOf, Nat.shiftLeft_eq, zpow_neg, zpow_natCast]
      push_cast
      exact mul_inv_cancel_right₀ (by positivity) _
  · refine ⟨⟨false, 2 ^ 52, 1, true⟩, ⟨by decide, by decide, by decide, fun _ => le_rfl, by decide⟩, ?_⟩
    rw [Binary.value]
    norm_num

/-! ### The end of the doubles -/

/-- The middle between the largest double and the next power of two, `2 ^ 1024`. -/
def overflow : Nat := (2 ^ 54 - 1) * 2 ^ 970

theorem lt_overflow {n : Nat} (small : n ≤ 2 ^ 53) : n < overflow := by
  calc n ≤ 2 ^ 53 := small
    _ < 2 ^ 54 - 1 := by decide
    _ ≤ overflow := by
      rw [overflow]
      exact Nat.le_mul_of_pos_right _ (pow_pos two_pos _)

section Overflow
variable {m n : Nat} {e : Int}

/-- The mantissa of a double that a number is nearest to bounds the number, in units in the last place. -/
theorem units_bounds (normal : 2 ^ 52 ≤ m) (small : m < 2 ^ 53)
    (nearest : Binary.Nearest ⟨false, m, e, m == 2 ^ 52⟩ n) :
    (2 ^ 52 - 1 / 4) * (2 : ℚ) ^ e ≤ n ∧ (n : ℚ) < (2 ^ 53 - 1 / 2) * 2 ^ e := by
  have unit : (0 : ℚ) < 2 ^ e := by positivity
  obtain ⟨q, scaled⟩ : ∃ q : ℚ, (n : ℚ) = q * 2 ^ e := ⟨n / 2 ^ e, by field_simp⟩
  rw [scaled] at nearest ⊢
  rw [mul_le_mul_iff_left₀ unit, mul_lt_mul_iff_left₀ unit]
  have inside := (nearest_mul_iff _ _).mp nearest
  dsimp only at inside
  constructor
  · have least : (m : ℚ) - (if m == 2 ^ 52 then 1 / 4 else 1 / 2) ≤ q := by
      split at inside
      · exact inside.1
      · exact inside.1.le
    rcases normal.eq_or_lt with rfl | larger
    · simp only [beq_self_eq_true, if_true] at least
      push_cast at least
      linarith
    · have wide : (m == 2 ^ 52) = false := by simpa using larger.ne'
      have larger : (2 ^ 52 : ℚ) + 1 ≤ m := by exact_mod_cast larger
      simp only [wide, Bool.false_eq_true, if_false] at least
      linarith
  · -- The largest mantissa is odd, so the double does not take the middle to the next one.
    split at inside
    · next even =>
        have last : m + 2 ≤ 2 ^ 53 := by omega
        have last : (m : ℚ) + 2 ≤ 2 ^ 53 := by exact_mod_cast last
        linarith [inside.2]
    · have last : (m : ℚ) + 1 ≤ 2 ^ 53 := by exact_mod_cast small
      linarith [inside.2]

/-- The doubles that numbers from there on are nearest to have an exponent that is too large. -/
theorem overflow_iff (normal : 2 ^ 52 ≤ m) (small : m < 2 ^ 53)
    (nearest : Binary.Nearest ⟨false, m, e, m == 2 ^ 52⟩ n) : n < overflow ↔ e ≤ 971 := by
  obtain ⟨low, high⟩ := units_bounds normal small nearest
  have edge : (overflow : ℚ) = (2 ^ 54 - 1) * 2 ^ (970 : Int) := by
    have front : ((2 ^ 54 - 1 : Nat) : ℚ) = 2 ^ 54 - 1 := by norm_num
    rw [overflow, Nat.cast_mul, front, Nat.cast_pow, ← zpow_natCast]
    rfl
  have double : (2 : ℚ) ^ (971 : Int) = 2 * 2 ^ (970 : Int) := by
    rw [← zpow_one_add₀ two_ne_zero]
    rfl
  rw [← Nat.cast_lt (α := ℚ), edge]
  constructor
  · intro below
    by_contra beyond
    have large := Binary.two_mul_unit_le (not_le.mp beyond)
    rw [double] at large
    generalize (2 : ℚ) ^ (970 : Int) = u at below large
    linarith
  · intro fits
    have large : (2 : ℚ) ^ e ≤ 2 ^ (971 : Int) := zpow_le_zpow_right₀ one_le_two fits
    rw [double] at large
    generalize (2 : ℚ) ^ (970 : Int) = u at large
    linarith

end Overflow

/-- A double is what a whole number is read as: the number itself up to `2 ^ 53`, then the double that is nearest to
it, and in the end infinity. -/
structure ReadAs (n : Nat) (x : Float) : Prop where
  exact : n ≤ 2 ^ 53 → ∃ b, shape x = .finite b ∧ b.negative = false ∧ b.value = n
  nearest : n < overflow → ∃ b, shape x = .finite b ∧ b.negative = false ∧ b.Nearest n
  infinite : overflow ≤ n → shape x = .infinite false

theorem readAs_ofNat (n : Nat) : ReadAs n (Float.ofNat n) := by
  rcases Nat.eq_zero_or_pos n with rfl | positive
  · have zero : Binary.value ⟨false, 0, -1074, false⟩ = (0 : Nat) := by simp [Binary.value]
    refine ⟨fun _ => ⟨_, shape_ofNat_zero, rfl, zero⟩, fun _ => ⟨_, shape_ofNat_zero, rfl, ?_⟩, fun beyond => ?_⟩
    · rw [← zero]
      exact Binary.nearest_of_inside (Binary.value_inside _).1 (Binary.value_inside _).2
    · exact absurd beyond (Nat.not_le_of_gt (lt_overflow (Nat.zero_le _)))
  · obtain ⟨m, e, normal, small, nearest, found⟩ := shape_ofNat positive
    have finite (below : n < overflow) :
        shape (Float.ofNat n) = .finite ⟨false, m, e, m == 2 ^ 52⟩ := by
      rw [found, if_pos ((overflow_iff normal small nearest).mp below)]
    refine ⟨fun whole => ?_, fun below => ⟨_, finite below, rfl, nearest⟩, fun beyond => ?_⟩
    · obtain ⟨b, proper, value⟩ := exists_double positive whole
      have itself : b.Nearest n := by
        rw [← value]
        exact Binary.nearest_of_inside b.value_inside.1 b.value_inside.2
      have seen := finite (lt_overflow whole)
      refine ⟨_, seen, rfl, ?_⟩
      rw [(shape_proper seen).nearest_unique proper nearest itself, value]
    · rw [found, if_neg fun fits => absurd ((overflow_iff normal small nearest).mpr fits) (Nat.not_lt_of_le beyond)]

end LuaHost.Decimal
