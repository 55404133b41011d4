import LuaHost.Decimal.Binary
/-!
The decimal digits of a double: the fewest that read back as it, or a fixed number of them. All
arithmetic is exact. A text is made of the digits in `LuaHost.Decimal.Notation`.
-/

namespace LuaHost.Decimal

/-- The number `0.d₁d₂…dₙ · 10 ^ point`; zero has no digits. -/
structure Digits where
  digits : List Nat
  point : Int
  deriving Repr, DecidableEq

/-- The decimal digits of a number, the most significant first; zero has none. -/
def digitsOf (n : Nat) : List Nat :=
  if n = 0 then [] else Nat.toDigits 10 n |>.map fun c => c.toNat - '0'.toNat

def trimZeros (ds : List Nat) : List Nat :=
  (ds.reverse.dropWhile (· == 0)).reverse

/-- `count · 10 ^ place` without trailing zeros. -/
def Digits.ofGrid (count : Nat) (place : Int) : Digits :=
  let ds := digitsOf count
  ⟨trimZeros ds, place + ds.length⟩

/-- Does `count · 10 ^ place` lie in the interval of reals that round to the double? -/
def Binary.covers (b : Binary) (count : Nat) (place : Int) : Bool :=
  let unit : Ratio := .scaled 1 (b.exponent - 2)
  let low := 4 * b.mantissa - (if b.narrowBelow then 1 else 2)
  let high := 4 * b.mantissa + 2
  let point : Ratio := match place with
    | .ofNat p => ⟨count * Nat.pow 10 p, 1⟩
    | .negSucc p => ⟨count, Nat.pow 10 (p + 1)⟩
  let left := low * unit.num * point.den
  let middle := point.num * unit.den
  let right := high * unit.num * point.den
  if b.mantissa % 2 == 0 then left ≤ middle && middle ≤ right else left < middle && middle < right

/-- The grid point nearest to the value among those with `n` digits that read back. -/
def Binary.gridPoint? (b : Binary) (length : Int) (n : Nat) : Option Digits :=
  let place := length - n
  let scaled := b.ratio.shiftDown place
  let below := scaled.floor
  let lower := b.covers below place
  let upper := b.covers (below + 1) place
  let nearUpper := 2 * (scaled.num - below * scaled.den) ≥ scaled.den
  if lower && !(upper && nearUpper) then some (.ofGrid below place)
  else if upper then some (.ofGrid (below + 1) place)
  else none

/-- The fewest digits that read back as the value, nearest first. -/
def Binary.shortest (b : Binary) : Digits :=
  if b.mantissa = 0 then ⟨[], 0⟩
  else
    let length := b.ratio.decimalLength
    match (List.range 17).findSome? fun n => b.gridPoint? length (n + 1) with
    | some d => d
    | none => .ofGrid (b.ratio.shiftDown (length - 17)).roundHalfUp (length - 17)

/-- Exactly `n` significant digits, a half rounded away from zero; trailing zeros are kept. -/
def Binary.significant (b : Binary) (n : Nat) : Digits :=
  if b.mantissa = 0 then ⟨List.replicate n 0, 1⟩
  else
    let length := b.ratio.decimalLength
    let count := (b.ratio.shiftDown (length - n)).roundHalfUp
    let ds := digitsOf count
    ⟨ds.take n, length - n + ds.length⟩

/-- The multiple of `10 ^ -places` nearest to the value, a half rounded away from zero. -/
def Binary.fixed (b : Binary) (places : Nat) : Nat :=
  (b.ratio.shiftDown (-places)).roundHalfUp

end LuaHost.Decimal
