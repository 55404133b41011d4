import LuaHost.Guest.Value
import LuaHost.Decimal.Read
/-!
The guest's numerals: decimal and hexadecimal integers and floats, with blanks around them. A decimal
integer beyond 32 bits is read as a float; a hexadecimal one wraps.
-/

namespace LuaHost.Guest.Numeral

def isSpace (c : Char) : Bool :=
  c = ' ' || c = '\t' || c = '\n' || c = '\r' || c = '\x0b' || c = '\x0c'

def hexValue? (c : Char) : Option Nat :=
  if '0' ≤ c && c ≤ '9' then some (c.toNat - '0'.toNat)
  else if 'a' ≤ c && c ≤ 'f' then some (c.toNat - 'a'.toNat + 10)
  else if 'A' ≤ c && c ≤ 'F' then some (c.toNat - 'A'.toNat + 10)
  else none

def isHexDigit (c : Char) : Bool := (hexValue? c).isSome

def hexNat (ds : List Char) : Nat :=
  ds.foldl (fun n c => 16 * n + (hexValue? c).getD 0) 0

def trim (cs : List Char) : List Char :=
  ((cs.dropWhile isSpace).reverse.dropWhile isSpace).reverse

/-- The digits behind a mark for hexadecimal numbers. -/
def hexBody? : List Char → Option (List Char)
  | '0' :: 'x' :: rest => some rest
  | '0' :: 'X' :: rest => some rest
  | _ => none

def integer? (cs : List Char) : Option Int32 :=
  let (negative, body) := Decimal.splitSign cs
  match hexBody? body with
  | some ds =>
    if ds.isEmpty || !ds.all isHexDigit then none
    else
      let n := Int32.ofInt (hexNat ds)
      some (if negative then -n else n)
  | none =>
    if body.isEmpty || !body.all Decimal.isDigit then none
    else
      let n : Int := Decimal.natOfDigits body
      let n := if negative then -n else n
      if fitsInt32 n then some (Int32.ofInt n) else none

/-- Significant hexadecimal digits that count; the others only shift the result. -/
def hexPrecision : Nat := 30

/-- The exponent of two behind the digits of a hexadecimal float. -/
def binaryExponent? : List Char → Option Int
  | [] => some 0
  | c :: rest =>
    if c = 'p' || c = 'P' then
      let (negative, ds) := Decimal.splitSign rest
      if ds.isEmpty || !ds.all Decimal.isDigit then none
      else
        let n := Decimal.natOfDigits ds
        some (if negative then -(n : Int) else n)
    else none

/-- `x · 2 ^ e`, in steps that a double can hold. -/
def scale (x : Float) (e : Int) : Float :=
  if e > 4000 then (if x == 0.0 then x else x * Float.ofScientific 1 false 400)
  else if e < -4000 then x * 0.0
  else x.scaleB e

def hexFloat? (cs : List Char) : Option Float :=
  let (negative, body) := Decimal.splitSign cs
  (hexBody? body).bind fun ds =>
    let whole := ds.takeWhile isHexDigit
    let rest := ds.dropWhile isHexDigit
    let (fraction, rest) := match rest with
      | '.' :: r => (r.takeWhile isHexDigit, r.dropWhile isHexDigit)
      | r => ([], r)
    let all := whole ++ fraction
    let significant := all.dropWhile (· = '0')
    if all.isEmpty then none
    else
      (binaryExponent? rest).map fun e =>
        let used := significant.take hexPrecision
        let ignored := significant.length - used.length
        let value := used.foldl (fun x c => x * 16.0 + Float.ofNat ((hexValue? c).getD 0)) 0.0
        Decimal.signed negative (scale value (e + 4 * ((ignored : Int) - fraction.length)))

/-- The number a text denotes. The words for NaN and infinity are no numerals. -/
def ofChars? (text : List Char) : Option Value :=
  let cs := trim text
  match integer? cs with
  | some n => some (.int n)
  | none =>
    if cs.any fun c => c = 'x' || c = 'X' then (hexFloat? cs).map .float
    else (Decimal.number? cs).map .float

def chars (bytes : Bytes) : List Char := bytes.toList.map fun b => Char.ofNat b.toNat

def ofBytes? (bytes : Bytes) : Option Value := ofChars? (chars bytes)

/-- The text of a number as the guest writes it. -/
def text : Value → String
  | .int n => toString n.toInt
  | .float x => Decimal.guestText x
  | _ => ""

end LuaHost.Guest.Numeral
