import LuaHost.Decimal.Shortest
/-!
Texts of doubles. Two notations are in use: the host's, with the fewest digits that read back, and
the guest's, which first rounds to fourteen significant digits.
-/

namespace LuaHost.Decimal

def digitText (ds : List Nat) : String :=
  String.ofList (ds.map Nat.digitChar)

def zeros (n : Nat) : String :=
  String.ofList (List.replicate n '0')

/-- An exponent always carries its sign. -/
def exponentText (e : Int) : String :=
  (if e < 0 then "e-" else "e+") ++ toString e.natAbs

/-- One digit, the other digits after a point, and an exponent. -/
def Digits.scientific (d : Digits) : String :=
  let fraction := if d.digits.length ≤ 1 then "" else "." ++ digitText (d.digits.drop 1)
  digitText (d.digits.take 1) ++ fraction ++ exponentText (d.point - 1)

/-- All digits around a decimal point, without an exponent. -/
def Digits.positional (d : Digits) : String :=
  let n : Int := d.digits.length
  if n ≤ d.point then digitText d.digits ++ zeros (d.point - n).toNat
  else if 0 < d.point then
    digitText (d.digits.take d.point.toNat) ++ "." ++ digitText (d.digits.drop d.point.toNat)
  else "0." ++ zeros (-d.point).toNat ++ digitText d.digits

/-- Magnitudes from `10 ^ -6` up to below `10 ^ 21` are positional, the others scientific. -/
def Digits.text (d : Digits) : String :=
  if d.digits.isEmpty then "0"
  else if -6 < d.point && d.point ≤ 21 then d.positional
  else d.scientific

/-- The host's text of a double. Both zeros are written alike. -/
def hostText (x : Float) : String :=
  match shape x with
  | .nan => "NaN"
  | .infinite negative => if negative then "-Infinity" else "Infinity"
  | .finite b =>
    let text := b.shortest.text
    if b.negative && b.mantissa != 0 then "-" ++ text else text

/-- The double that `digits` denotes. -/
def Digits.toFloat (d : Digits) (negative : Bool) : Float :=
  let count := d.digits.foldl (fun n i => 10 * n + i) 0
  let place : Int := d.point - d.digits.length
  let x := match place with
    | .ofNat p => Float.ofScientific count false p
    | .negSucc p => Float.ofScientific count true (p + 1)
  if negative then -x else x

/-- The double nearest to the value rounded to `n` significant digits. -/
def roundSignificant (x : Float) (n : Nat) : Float :=
  match shape x with
  | .finite b => (b.significant n).toFloat b.negative
  | _ => x

/-- Significant digits the guest keeps of a float. -/
def guestPrecision : Nat := 14

/-- The guest's text of a float: rounded, and marked by `.0` where it looks like an integer. -/
def guestText (x : Float) : String :=
  let text := hostText (roundSignificant x guestPrecision)
  if text.all fun c => c.isDigit || c == '-' then text ++ ".0" else text

/-- A fixed number of decimal places; magnitudes from `10 ^ 21` on are written as the host does. -/
def fixedText (x : Float) (places : Nat) : String :=
  match shape x with
  | .finite b =>
    if b.ratio.atLeastPow 21 then hostText x
    else
      let count := b.fixed places
      let ds := digitsOf count
      let padded := List.replicate (places + 1 - ds.length) 0 ++ ds
      let whole := digitText (padded.take (padded.length - places))
      let text := if places = 0 then whole
        else whole ++ "." ++ digitText (padded.drop (padded.length - places))
      if b.negative && b.mantissa != 0 then "-" ++ text else text
  | _ => hostText x

/-- Scientific notation; without a number of places, with the fewest digits that read back. -/
def scientificText (x : Float) (places : Option Nat) : String :=
  match shape x with
  | .finite b =>
    let ds := match places with
      | some p => b.significant (p + 1)
      | none => if b.mantissa = 0 then ⟨[0], 1⟩ else b.shortest
    let text := ds.scientific
    if b.negative && b.mantissa != 0 then "-" ++ text else text
  | _ => hostText x

end LuaHost.Decimal
