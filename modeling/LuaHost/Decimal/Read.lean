import LuaHost.Decimal.Notation
/-!
Reading decimal numbers: a sign, digits with at most one point, and an exponent.
-/

namespace LuaHost.Decimal

/-- The double nearest to `mantissa · 10 ^ exponent`. -/
def nearest (mantissa : Nat) (exponent : Int) : Float :=
  let length : Int := (mantissa.log2 : Int) * 30103 / 100000 + 1
  if mantissa = 0 then 0.0
  else if length + exponent > 312 then Float.ofScientific 1 false 400
  else if length + exponent < -330 then 0.0
  else
    match exponent with
    | .ofNat e => Float.ofScientific mantissa false e
    | .negSucc e => Float.ofScientific mantissa true (e + 1)

def signed (negative : Bool) (x : Float) : Float := if negative then -x else x

def isDigit (c : Char) : Bool := '0' ≤ c && c ≤ '9'

def digitValue (c : Char) : Nat := c.toNat - '0'.toNat

def natOfDigits (ds : List Char) : Nat :=
  ds.foldl (fun n c => 10 * n + digitValue c) 0

/-- Splits off a sign; `true` stands for a minus. -/
def splitSign : List Char → Bool × List Char
  | '-' :: rest => (true, rest)
  | '+' :: rest => (false, rest)
  | cs => (false, cs)

/-- The value of an exponent mark and what follows, or zero where there is none. -/
def exponent? : List Char → Option Int
  | [] => some 0
  | c :: rest =>
    if c = 'e' || c = 'E' then
      let (negative, ds) := splitSign rest
      if ds.isEmpty || !ds.all isDigit then none
      else
        let n := natOfDigits ds
        some (if negative then -(n : Int) else n)
    else none

/-- The number a text without blanks denotes: digits on at least one side of the point. -/
def unsigned? (cs : List Char) : Option Float :=
  let whole := cs.takeWhile isDigit
  let rest := cs.dropWhile isDigit
  let (fraction, rest) := match rest with
    | '.' :: r => (r.takeWhile isDigit, r.dropWhile isDigit)
    | r => ([], r)
  if whole.isEmpty && fraction.isEmpty then none
  else
    (exponent? rest).map fun e =>
      nearest (natOfDigits (whole ++ fraction)) (e - fraction.length)

def number? (cs : List Char) : Option Float :=
  let (negative, rest) := splitSign cs
  (unsigned? rest).map (signed negative)

end LuaHost.Decimal
