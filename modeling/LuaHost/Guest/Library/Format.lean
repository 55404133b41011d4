import LuaHost.Guest.Library.Arguments
import LuaHost.Guest.ChunkName
/-!
Formatted text. An item has optional parts in a fixed order: a plus sign, what to pad with, a minus
sign for padding on the right, a width and a precision. Parts in another order cannot be read.
-/

namespace LuaHost.Guest.Format

/-- The parts of an item between the percent sign and its letter. -/
structure Item where
  plus : Bool := false
  padding : Char := ' '
  leftAligned : Bool := false
  width : Nat := 0
  precision : Option Nat := none
  deriving Inhabited

def flags : List Char := ['-', '+', ' ', '#', '0']

/-- Splits the parts off: as many flags as there are, two digits of width, two of precision. -/
def scan (cs : List Char) : Except String (List Char × List Char) :=
  let given := cs.takeWhile flags.contains
  let rest := cs.drop given.length
  if given.length ≥ flags.length then .error "invalid format (repeated flags)"
  else
    let width := (rest.take 2).takeWhile Decimal.isDigit
    let rest := rest.drop width.length
    let (precision, rest) := match rest with
      | '.' :: more =>
        let ds := (more.take 2).takeWhile Decimal.isDigit
        ('.' :: ds, more.drop ds.length)
      | _ => ([], rest)
    if (rest.head?).any Decimal.isDigit then
      .error "invalid format (width or precision too long)"
    else .ok (given ++ width ++ precision, rest)

/-- Reads the parts of an item in their order. -/
def Item.ofChars? (cs : List Char) : Option Item :=
  let (plus, cs) := match cs with
    | '+' :: r => (true, r)
    | _ => (false, cs)
  let (padding, cs) := match cs with
    | '0' :: r => ('0', r)
    | _ => (' ', cs)
  let (leftAligned, cs) := match cs with
    | '-' :: r => (true, r)
    | _ => (false, cs)
  let digits := cs.takeWhile Decimal.isDigit
  let item : Item := { plus, padding, leftAligned, width := Decimal.natOfDigits digits }
  match cs.drop digits.length with
  | [] => some item
  | '.' :: ds =>
    if ds.isEmpty || !ds.all Decimal.isDigit then none
    else some { item with precision := some (Decimal.natOfDigits ds) }
  | _ => none

/-- Puts the sign and the padding around a text. -/
def Item.pad (item : Item) (sign body : String) : String :=
  let fill := String.ofList (List.replicate (item.width - units (sign ++ body)) item.padding)
  if item.leftAligned then sign ++ body ++ fill
  else if item.padding == '0' then sign ++ fill ++ body
  else fill ++ sign ++ body
where
  /-- The length of a text in units of sixteen bits. -/
  units (s : String) : Nat := s.toList.foldl (fun n c => n + if c.toNat ≥ 0x10000 then 2 else 1) 0

/-- The text of a number with its sign taken off; numbers that are not negative carry a plus sign only
on demand. -/
def Item.signed (item : Item) (isPositive : Bool) (body : String) : String :=
  if isPositive && !item.plus then item.pad "" body
  else
    let bare := match body.toList with
      | '-' :: r => String.ofList r
      | '+' :: r => String.ofList r
      | _ => body
    item.pad (if isPositive then "+" else "-") bare

def bits (n : Int32) : Nat := n.toUInt32.toNat

/-- An integer in the notation of a letter. -/
def Item.integer (item : Item) (letter : Char) (n : Int32) : String :=
  match letter with
  | 'o' => item.pad "" (String.ofList (Nat.toDigits 8 (bits n)))
  | 'u' => item.pad "" (toString (bits n))
  | 'x' => item.pad "" (String.ofList (Nat.toDigits 16 (bits n)))
  | 'X' => item.pad "" (String.ofList ((Nat.toDigits 16 (bits n)).map Char.toUpper))
  | _ => item.signed (0 ≤ n) (toString n.toInt)

/-- A float in the notation of a letter; nothing for notations or precisions that are not known. -/
def Item.float? (item : Item) (letter : Char) (x : Float) : Option String :=
  let shown (body : String) : Option String := some (item.signed (x ≥ 0.0) body)
  match letter with
  | 'e' => shown (Decimal.scientificText x item.precision)
  | 'f' =>
    match item.precision with
    | some p => shown (Decimal.fixedText x p)
    | none => shown (Decimal.hostText x)
  | 'g' =>
    match item.precision with
    | some 0 => none
    | some p => shown (Decimal.hostText (Decimal.roundSignificant x p))
    | none => shown (Decimal.hostText x)
  | _ => none

/-- A text cut to the precision, in characters as the host counts them. -/
def Item.text (item : Item) (s : String) : String :=
  item.pad "" (match item.precision with
    | some p => if p == 0 && s.isEmpty then s else String.ofList (s.toList.take p)
    | none => s)

/-- A text as it stands in source text. -/
def quotedBytes (s : Bytes) : Bytes :=
  let digit (c : UInt8) : Bool := 48 ≤ c && c ≤ 57
  let rec go : List UInt8 → List UInt8
    | [] => []
    | c :: rest =>
      if c == 34 || c == 92 || c == 10 then 92 :: c :: go rest
      else if c < 32 || c == 127 then
        let ds := toString c.toNat
        let padded := if (rest.head?).any digit then Decimal.zeros (3 - ds.length) ++ ds else ds
        92 :: (padded.toUTF8.toList ++ go rest)
      else c :: go rest
  ⟨((34 :: go s.toList) ++ [34]).toArray⟩

/-- A value as it stands in source text. -/
def literal (n : Nat) (v : Value) : Act Bytes := do
  match v with
  | .string s => return quotedBytes s
  | .int i =>
    return Text.encode (if i.toInt == int32Min then "0x80000000" else Numeral.text (.int i))
  | .float _ => Act.tostring v
  | .nil => Act.tostring v
  | .bool _ => Act.tostring v
  | _ => Act.badArgument n "value has no literal form"

def breakDown {α : Type} : Act α := fun _ => .breakDown

def orBreakDown {α : Type} : Option α → Act α
  | some a => pure a
  | none => breakDown

/-- Texts longer than this are not padded unless they are cut. -/
def longText : Nat := 100

variable (args : Arguments)

/-- The text of one item, whose argument is the `n`-th. -/
def item (n : Nat) (parts : List Char) (letter : Char) : Act Bytes := do
  match letter with
  | 'c' => return ⟨#[(← args.int n).toUInt32.toUInt8]⟩
  | 'q' => literal n (args.get n)
  | 's' =>
    let s ← Act.tostring (args.get n)
    if parts.isEmpty then return s
    else
      Act.require (!s.toList.contains 0) n "string contains zeros"
      if !parts.contains '.' && s.size ≥ longText then return s
      else
        let i ← orBreakDown (Item.ofChars? parts)
        return Text.encode (i.text (Text.decode s))
  | _ =>
    if ['d', 'i', 'o', 'u', 'x', 'X'].contains letter then
      let value ← args.int n
      let i ← orBreakDown (Item.ofChars? parts)
      return Text.encode (i.integer letter value)
    else if ['f', 'e', 'E', 'g', 'G'].contains letter then
      let value ← args.number n
      let i ← orBreakDown (Item.ofChars? parts)
      return Text.encode (← orBreakDown (i.float? letter value))
    else
      Act.failBytes (Text.encode "invalid option '%" ++ Text.encode (String.ofList (parts ++ [letter]))
        ++ Text.encode "' to 'format'")

/-- Goes through a format with the number of the last argument used up. -/
def run : Nat → List Char → Nat → Bytes → Act Bytes
  | 0, _, _, done => pure done
  | fuel + 1, cs, n, done =>
    match cs with
    | [] => pure done
    | '%' :: '%' :: rest => run fuel rest n (done.push 37)
    | '%' :: rest => do
      let n := n + 1
      if args.size < n then Act.badArgument n "no value"
      else
        match scan rest with
        | .error e => Act.fail e
        | .ok (parts, []) =>
          Act.failBytes (Text.encode "invalid option '%" ++ Text.encode (String.ofList parts)
            ++ Text.encode "' to 'format'")
        | .ok (parts, letter :: rest) => do
          let text ← item args n parts letter
          run fuel rest n (done ++ text)
    | c :: rest => run fuel rest n (done.push (UInt8.ofNat c.toNat))

end LuaHost.Guest.Format
