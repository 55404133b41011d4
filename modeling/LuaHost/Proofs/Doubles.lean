import LuaHost.Guest.Value
import Mathlib
/-!
Whole numbers as doubles. A whole number below `2 ^ 53` is held exactly, with its mantissa shifted so far
that its highest bit is the one that is not stored. So the doubles of the guest integers are told from all
others, and each one gives its integer back.
-/

namespace LuaHost.Guest

open Float.Model Float.Model.UnpackedFloat

/-- How far the mantissa of a whole number is shifted. -/
def shiftOf (m : Nat) : Nat := 52 - m.log2

def mantissaOf (m : Nat) : Nat := m <<< shiftOf m

variable {m : Nat}

theorem log2_le (bound : m < 2 ^ 53) : m.log2 ≤ 52 := by
  by_cases zero : m = 0
  · simp [zero]
  · have := (Nat.log2_lt zero).mpr bound
    omega

theorem mantissaOf_pos (positive : 0 < m) : 0 < mantissaOf m := by
  rw [mantissaOf, Nat.shiftLeft_eq]
  exact Nat.mul_pos positive (Nat.two_pow_pos _)

theorem log2_mul_two_pow (positive : 0 < m) (k : Nat) : (m * 2 ^ k).log2 = m.log2 + k := by
  induction k with
  | zero => rw [pow_zero, mul_one, Nat.add_zero]
  | succ k ih =>
      have present : m * 2 ^ k ≠ 0 := Nat.ne_of_gt (Nat.mul_pos positive (Nat.two_pow_pos k))
      rw [pow_succ', Nat.mul_left_comm, Nat.log2_two_mul present, ih, Nat.add_assoc]

theorem log2_mantissaOf (positive : 0 < m) (bound : m < 2 ^ 53) : (mantissaOf m).log2 = 52 := by
  rw [mantissaOf, Nat.shiftLeft_eq, log2_mul_two_pow positive, shiftOf, Nat.add_sub_cancel' (log2_le bound)]

/-- A mantissa of 53 bits or more is cut off after the first 53. -/
theorem shiftToTargetExponent_of_bits {M k : Nat} {e : Int} (bits : M.log2 = 52 + k) (low : -1074 ≤ e + k) :
    shiftToTargetExponent Format.binary64 M e .exact =
      (ExtendedMantissa.ofMantissaAndAccuracy M .exact >>> k, e + k) := by
  have target : Format.binary64.targetExponent (totalExponent M e) = e + k := by
    simp only [Format.targetExponent, totalExponent, Format.mantissaBits, Format.minExponent, bits]
    omega
  have amount : (e + k - e).toNat = k := by omega
  simp only [shiftToTargetExponent, target, shiftToExponent, amount]

/-- A mantissa of 53 bits is not rounded. -/
theorem shiftToTargetExponent_eq {M : Nat} {e : Int} (high : M.log2 = 52) (low : -1074 ≤ e) :
    shiftToTargetExponent Format.binary64 M e .exact = (⟨M, false, false⟩, e) := by
  rw [shiftToTargetExponent_of_bits (k := 0) high (by omega), Nat.cast_zero, Int.add_zero]
  rfl

theorem roundWithAccuracy_eq {M : Nat} {e : Int} (s : Sign) (positive : 0 < M) (high : M.log2 = 52)
    (low : -1074 ≤ e) :
    roundWithAccuracy Format.binary64 s M e .exact = .finite s M e positive := by
  have rounded : (⟨M, false, false⟩ : ExtendedMantissa).roundedMantissa = M := rfl
  simp only [roundWithAccuracy, shiftToTargetExponent_eq high low, rounded]
  rw [dif_neg (Nat.ne_of_gt positive)]

theorem round_whole (s : Sign) (positive : 0 < m) (bound : m < 2 ^ 53) :
    UnpackedFloat.round Format.binary64 s m 0 =
      .finite s (mantissaOf m) (-(shiftOf m : Int)) (mantissaOf_pos positive) := by
  have low := log2_le bound
  have target : Format.binary64.targetExponent (totalExponent m 0) = -(shiftOf m : Int) := by
    simp only [Format.targetExponent, totalExponent, Format.mantissaBits, Format.minExponent, shiftOf]
    omega
  have shift : ((0 : Int) - -(shiftOf m : Int)).toNat = shiftOf m := by omega
  have exponent : (0 : Int) - (shiftOf m : Int) = -(shiftOf m : Int) := by omega
  simp only [UnpackedFloat.round, target, decreaseExponent, shift, exponent]
  refine roundWithAccuracy_eq s (mantissaOf_pos positive) (log2_mantissaOf positive bound) ?_
  simp only [shiftOf]
  omega

theorem unpackSign_packComponents (s : Sign) (e : BitVec 11) (f : BitVec 52) :
    Sign.ofBitVec (unpackSign (packComponents Format.binary64 s e f)) = s := by
  have sign : (s.toBitVec ++ e ++ f).extractLsb' 63 1 = s.toBitVec := by
    rw [BitVec.extractLsb'_append_eq_of_le (by omega), BitVec.extractLsb'_append_eq_of_le (by omega)]
    exact BitVec.extractLsb'_eq_self
  have unpacked : unpackSign (packComponents Format.binary64 s e f) = s.toBitVec := sign
  rw [unpacked]
  cases s <;> rfl

/-- A finite double with a mantissa of 53 bits is unpacked as it was packed. -/
theorem unpack_pack {M k : Nat} (s : Sign) (positive : 0 < M) (high : M.log2 = 52) (low : k ≤ 52) :
    (Float.Model.pack (.finite s M (-(k : Int)) positive)).unpack =
      .finite s M (-(k : Int)) positive := by
  obtain ⟨above, below⟩ := (Nat.log2_eq_iff (Nat.ne_of_gt positive)).mp high
  have biased : (-(k : Int) + Format.binary64.exponentBias +
      Format.binary64.mantissaBitsWithoutImplicit).toNat = 1075 - k := by
    simp only [Format.exponentBias]
    omega
  have packed : UnpackedFloat.pack Format.binary64 (.finite s M (-(k : Int)) positive) =
      packComponents Format.binary64 s (BitVec.ofNat 11 (1075 - k)) (BitVec.ofNat 52 M) := by
    simp only [UnpackedFloat.pack, biased, high]
    rw [if_neg (by simp only [Nat.reducePow]; omega)]
    exact if_pos rfl
  have exponent : (BitVec.ofNat 11 (1075 - k)).toNat = 1075 - k := by
    rw [BitVec.toNat_ofNat]
    exact Nat.mod_eq_of_lt (by omega)
  have special : BitVec.ofNat 11 (1075 - k) ≠ -1#11 ∧ BitVec.ofNat 11 (1075 - k) ≠ 0#11 := by
    constructor
    · intro same
      have same : 1075 - k = 2047 := exponent.symm.trans (congrArg BitVec.toNat same)
      omega
    · intro same
      have same : 1075 - k = 0 := exponent.symm.trans (congrArg BitVec.toNat same)
      omega
  have mantissa : (1#1 ++ BitVec.ofNat 52 M).toNat = M := by
    rw [BitVec.toNat_append, BitVec.toNat_ofNat, ← Nat.shiftLeft_add_eq_or_of_lt]
    · simp only [BitVec.toNat_ofNat, Nat.shiftLeft_eq]
      omega
    · exact Nat.mod_lt _ (by omega)
  simp only [Float.Model.unpack, Float.Model.pack, packed, UnpackedFloat.unpack,
    unpackExponent_packComponents, unpackMantissa_packComponents, unpackSign_packComponents]
  rw [if_neg special.1, if_neg special.2]
  simp only [mantissa, exponent, Format.exponentBias]
  congr 1
  omega

/-! ### Truncation -/

theorem shiftRight_mantissa (em : ExtendedMantissa) (k : Nat) :
    (em >>> k).mantissa = em.mantissa / 2 ^ k := by
  induction k with
  | zero => simp [HShiftRight.hShiftRight, Nat.repeat]
  | succ k ih =>
      have step : (em >>> (k + 1)).mantissa = (em >>> k).mantissa / 2 := rfl
      rw [step, ih, Nat.div_div_eq_div_mul, Nat.pow_succ]

/-- Nothing of a whole number is lost when its double is truncated. -/
theorem roundToInt_whole (m : Nat) :
    roundToInt .positive (mantissaOf m) (-(shiftOf m : Int)) = m := by
  have down : (-(shiftOf m : Int) - 0).toNat = 0 := by omega
  have up : (0 - (-(shiftOf m : Int) - (0 : Nat))).toNat = shiftOf m := by omega
  simp only [roundToInt, decreaseExponent, down, Nat.shiftLeft_zero, shiftToExponent, up,
    shiftRight_mantissa, ExtendedMantissa.ofMantissaAndAccuracy, Sign.apply]
  rw [mantissaOf, Nat.shiftLeft_eq, Nat.mul_div_cancel _ (Nat.two_pow_pos _)]

/-! ### Doubles of whole numbers -/

/-- A double is a whole number other than zero, with this sign. -/
def IsWhole (x : Float) (s : Sign) (m : Nat) : Prop :=
  ∃ positive, x.toModel.unpack = .finite s (mantissaOf m) (-(shiftOf m : Int)) positive

theorem isWhole_pack (s : Sign) (positive : 0 < m) (bound : m < 2 ^ 53) :
    IsWhole ⟨Float.Model.pack (.finite s (mantissaOf m) (-(shiftOf m : Int)) (mantissaOf_pos positive))⟩
      s m := by
  refine ⟨mantissaOf_pos positive, unpack_pack s _ (log2_mantissaOf positive bound) ?_⟩
  simp only [shiftOf]
  omega

theorem floatOfNat_isWhole (positive : 0 < m) (bound : m < 2 ^ 53) :
    IsWhole (floatOfNat m) .positive m := by
  have held : (UInt64.ofNat m).toNat = m := by
    rw [UInt64.toNat_ofNat']
    exact Nat.mod_eq_of_lt (by omega)
  have rounded : UnpackedFloat.ofUInt64 Format.binary64 (UInt64.ofNat m) =
      .finite .positive (mantissaOf m) (-(shiftOf m : Int)) (mantissaOf_pos positive) := by
    have above : compare (m : Int) 0 = .gt := by
      rw [Int.compare_eq_gt]
      omega
    simp only [UnpackedFloat.ofUInt64, UnpackedFloat.ofNat, UnpackedFloat.ofInt,
      UnpackedFloat.normalize, held, above, Int.toNat_natCast]
    exact round_whole .positive positive bound
  have packed := isWhole_pack .positive positive bound
  rwa [← rounded] at packed

theorem IsWhole.neg {x : Float} (positive : 0 < m) (bound : m < 2 ^ 53)
    (whole : IsWhole x .positive m) : IsWhole (-x) .negative m := by
  obtain ⟨_, unpacked⟩ := whole
  have negated : x.toModel.unpack.neg =
      .finite .negative (mantissaOf m) (-(shiftOf m : Int)) (mantissaOf_pos positive) := by
    rw [unpacked]
    rfl
  have packed := isWhole_pack .negative positive bound
  rwa [← negated] at packed

theorem IsWhole.abs {x : Float} {s : Sign} (positive : 0 < m) (bound : m < 2 ^ 53)
    (whole : IsWhole x s m) : IsWhole x.abs .positive m := by
  obtain ⟨_, unpacked⟩ := whole
  have absolute : x.toModel.unpack.abs =
      .finite .positive (mantissaOf m) (-(shiftOf m : Int)) (mantissaOf_pos positive) := by
    rw [unpacked]
    rfl
  have packed := isWhole_pack .positive positive bound
  rwa [← absolute] at packed

theorem IsWhole.toUInt64 {x : Float} (bound : m < 2 ^ 53) (whole : IsWhole x .positive m) :
    x.toUInt64 = UInt64.ofNat m := by
  obtain ⟨_, unpacked⟩ := whole
  have truncated : x.toUInt64 = UInt64.ofNatClamp m := by
    simp only [Float.toUInt64, Float.Model.toUInt64, unpacked, UnpackedFloat.toUInt64,
      UnpackedFloat.toInt, roundToInt_whole, Int.toNat_natCast]
  have fits : m < UInt64.size := by
    simp only [UInt64.size]
    omega
  rw [truncated, UInt64.ofNatClamp, dif_pos fits, UInt64.ofNatLT_eq_ofNat]

theorem IsWhole.beq {x y : Float} {s : Sign} (left : IsWhole x s m) (right : IsWhole y s m) :
    (x == y) = true := by
  obtain ⟨_, left⟩ := left
  obtain ⟨_, right⟩ := right
  have compared : x.toModel.unpack.compare y.toModel.unpack = some .eq := by
    rw [left, right]
    cases s <;> simp [UnpackedFloat.compare]
  have equal : (x == y) = (x.toModel.unpack.compare y.toModel.unpack == some .eq) := rfl
  rw [equal, compared]
  rfl

theorem zero_unpack : (0 : Float).toModel.unpack = .zero .positive := by
  rfl

theorem IsWhole.lt_zero {x : Float} {s : Sign} (whole : IsWhole x s m) :
    x < 0 ↔ s = .negative := by
  obtain ⟨_, unpacked⟩ := whole
  have compared : x < 0 ↔
      (x.toModel.unpack.compare (0 : Float).toModel.unpack == some .lt) = true := by
    show (decide (x.toModel < (0 : Float).toModel)) = true ↔ _
    rw [decide_eq_true_iff]
    rfl
  rw [compared, unpacked, zero_unpack]
  cases s <;> simp [UnpackedFloat.compare]

/-- The double of a whole number is told to be that number. -/
theorem IsWhole.wholeOfFloat? {x : Float} {s : Sign} (positive : 0 < m) (bound : m < 2 ^ 53)
    (whole : IsWhole x s m) : wholeOfFloat? x = some (s.apply m) := by
  have truncated := (whole.abs positive bound).toUInt64 bound
  have same : ((UInt64.ofNat m).toFloat == x.abs) = true :=
    (floatOfNat_isWhole positive bound).beq (whole.abs positive bound)
  have held : (UInt64.ofNat m).toNat = m := by
    rw [UInt64.toNat_ofNat']
    exact Nat.mod_eq_of_lt (by omega)
  have small : UInt64.ofNat m < 9007199254740992 := by
    rw [UInt64.lt_iff_toNat_lt, held]
    exact bound
  simp only [Guest.wholeOfFloat?, truncated]
  rw [same, Bool.true_and, if_pos (decide_eq_true small), held]
  cases s with
  | negative =>
      rw [if_pos (whole.lt_zero.mpr rfl)]
      rfl
  | positive =>
      rw [if_neg fun negative => nomatch whole.lt_zero.mp negative]
      rfl

theorem wholeOfFloat?_zero : wholeOfFloat? (floatOfNat 0) = some 0 := by
  rfl

theorem wholeOfFloat?_floatOfNat (bound : m < 2 ^ 53) : wholeOfFloat? (floatOfNat m) = some (m : Int) := by
  rcases Nat.eq_zero_or_pos m with rfl | positive
  · exact wholeOfFloat?_zero
  · exact (floatOfNat_isWhole positive bound).wholeOfFloat? positive bound

/-- Indices are guest integers up to the largest one. -/
theorem integerOfFloat?_floatOfNat (bound : m < 2 ^ 31) :
    integerOfFloat? (floatOfNat m) = some (Int32.ofNat m) := by
  have fits : fitsInt32 (m : Int) = true := by
    rw [fitsInt32_iff]
    omega
  simp only [integerOfFloat?, wholeOfFloat?_floatOfNat (m := m) (by omega), fits]
  rfl

/-- Each guest integer has a double, which gives it back. -/
theorem integerOfFloat?_floatOfInt (n : Int32) : integerOfFloat? (floatOfInt n) = some n := by
  have low := n.le_toInt
  have high := n.toInt_lt
  have whole : wholeOfFloat? (floatOfInt n) = some n.toInt := by
    rw [floatOfInt]
    split
    · next negative =>
        have positive : 0 < n.toInt.natAbs := by omega
        have bound : n.toInt.natAbs < 2 ^ 53 := by omega
        rw [((floatOfNat_isWhole positive bound).neg positive bound).wholeOfFloat? positive bound,
          Sign.apply]
        congr 1
        omega
    · next nonnegative =>
        rw [wholeOfFloat?_floatOfNat (by omega)]
        congr 1
        omega
  simp [integerOfFloat?, whole, fitsInt32_toInt]

end LuaHost.Guest
