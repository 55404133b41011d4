/-!
The exact value of a double: a sign and `mantissa · 2 ^ exponent`. Nothing is claimed of NaN and
the infinities, which have no such value.
-/

namespace LuaHost.Decimal

/-- The magnitude `mantissa · 2 ^ exponent` of a finite double, with its sign. -/
structure Binary where
  negative : Bool
  mantissa : Nat
  exponent : Int
  /-- The next smaller double is only half as far away as the next larger one. -/
  narrowBelow : Bool
  deriving Repr, DecidableEq

/-- What a double is, seen from its bits. -/
inductive Shape where
  | nan
  | infinite (negative : Bool)
  | finite (value : Binary)
  deriving Repr, DecidableEq

def shapeOfBits (bits : UInt64) : Shape :=
  let negative := bits >>> 63 == 1
  let biased := ((bits >>> 52) &&& 0x7ff).toNat
  let fraction := (bits &&& 0xfffffffffffff).toNat
  if biased == 0x7ff then
    if fraction == 0 then .infinite negative else .nan
  else if biased == 0 then
    .finite ⟨negative, fraction, -1074, false⟩
  else
    .finite ⟨negative, fraction + Nat.pow 2 52, (biased : Int) - 1075, fraction == 0 && biased > 1⟩

def shape (x : Float) : Shape := shapeOfBits x.toBits

/-- A non-negative rational number as numerator and denominator. -/
structure Ratio where
  num : Nat
  den : Nat
  deriving Repr, DecidableEq

namespace Ratio

/-- `mantissa · 2 ^ exponent`. -/
def scaled (mantissa : Nat) (exponent : Int) : Ratio :=
  match exponent with
  | .ofNat e => ⟨mantissa * Nat.pow 2 e, 1⟩
  | .negSucc e => ⟨mantissa, Nat.pow 2 (e + 1)⟩

/-- `a / 10 ^ place`. -/
def shiftDown (a : Ratio) (place : Int) : Ratio :=
  match place with
  | .ofNat p => ⟨a.num, a.den * Nat.pow 10 p⟩
  | .negSucc p => ⟨a.num * Nat.pow 10 (p + 1), a.den⟩

def floor (a : Ratio) : Nat := a.num / a.den

/-- Rounds to the nearest whole number, a half upwards. -/
def roundHalfUp (a : Ratio) : Nat := (2 * a.num + a.den) / (2 * a.den)

/-- Is the number at least `10 ^ e`? -/
def atLeastPow (a : Ratio) (e : Int) : Bool :=
  match e with
  | .ofNat p => a.den * Nat.pow 10 p ≤ a.num
  | .negSucc p => a.den ≤ a.num * Nat.pow 10 (p + 1)

/-- The `k` with `10 ^ (k - 1) ≤ a < 10 ^ k`, searched near a first guess from the binary length. -/
def decimalLength (a : Ratio) : Int :=
  let binary : Int := (a.num.log2 : Int) - (a.den.log2 : Int)
  let guess : Int := binary * 30103 / 100000
  let candidates := [guess + 3, guess + 2, guess + 1, guess, guess - 1, guess - 2]
  match candidates.find? fun k => a.atLeastPow (k - 1) with
  | some k => k
  | none => guess - 2

end Ratio

def Binary.ratio (b : Binary) : Ratio := .scaled b.mantissa b.exponent

end LuaHost.Decimal
