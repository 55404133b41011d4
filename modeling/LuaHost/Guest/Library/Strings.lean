import LuaHost.Guest.Library.Format
import LuaHost.Guest.Library.Pattern
/-!
Texts: bytes, cutting, repetition, and search and replacement with patterns.
-/

namespace LuaHost.Guest.Library

open Pattern (Subject Capture)

variable (args : Arguments)

/-- A place counted from the start, or backwards from the end if it is negative. -/
def place (i : Int32) (length : Nat) : Int :=
  let n := i.toInt
  if n ≥ 0 then n else if -n > length then 0 else length + n + 1

def orFail {α : Type} : Except String α → Act α
  | .ok a => pure a
  | .error e => Act.fail e

def strLen : Act (List Value) := do
  return [.int (Int32.ofNat (← args.string 1).size)]

def strSub : Act (List Value) := do
  let s ← args.string 1
  let first := max 1 (place (← args.int 2) s.size)
  let last := min (s.size : Int) (place (← args.optInt 3 (-1)) s.size)
  return [.string (if first > last then ByteArray.empty
    else s.extract (first.toNat - 1) last.toNat)]

def mapBytes (f : List UInt8 → List UInt8) : Act (List Value) := do
  let s ← args.string 1
  return [.string ⟨(f s.toList).toArray⟩]

def strLower : Act (List Value) := mapBytes args (·.map Pattern.toLower)

def strUpper : Act (List Value) := mapBytes args (·.map Pattern.toUpper)

def strReverse : Act (List Value) := mapBytes args List.reverse

/-- The longest text that may be built. -/
def maxTextSize : Nat := 2147483647

/-- `count` copies of a text, each with a separator before it. -/
def copies (s separator : Bytes) : Nat → Bytes → Bytes
  | 0, done => done
  | n + 1, done => copies s separator n (done ++ separator ++ s)

def strRep : Act (List Value) := do
  let s ← args.string 1
  let n ← args.int 2
  let separator ← args.optString 3 ByteArray.empty
  if n ≤ 0 then return [.string ByteArray.empty]
  else
    let count := n.toNatClampNeg
    if s.size + separator.size > maxTextSize / count then Act.fail "resulting string too large"
    else return [.string (copies s separator (count - 1) s)]

def strByte : Act (List Value) := do
  let s ← args.string 1
  let from? ← args.optInt 2 1
  let first := place from? s.size
  let last := place (← args.optInt 3 (Int32.ofInt first)) s.size
  let first := max 1 first
  let last := min (s.size : Int) last
  if first > last then return []
  else
    let count := (last - first + 1).toNat
    if ← Act.reserve count then
      return ((s.extract (first.toNat - 1) last.toNat).toList).map fun b =>
        .int (Int32.ofNat b.toNat)
    else Act.fail "stack overflow (string slice too long)"

def strChar : Act (List Value) := do
  let bytes ← (List.range args.size).mapM fun i => do
    let c ← args.int (i + 1)
    Act.require (0 ≤ c && c ≤ 255) (i + 1) "value out of range"
    return c.toUInt32.toUInt8
  return [.string ⟨bytes.toArray⟩]

def strFormat : Act (List Value) := do
  let format ← args.string 1
  let cs := Numeral.chars format
  return [.string (← Format.run args (cs.length + 1) cs 1 ByteArray.empty)]

/-! ### Search -/

/-- Characters with a meaning of their own in patterns. -/
def specials : List UInt8 := "^$*+?.([%-".toUTF8.toList

/-- The first place at or after `s` where a text stands. -/
def plainSearch (text wanted : Bytes) : Nat → Nat → Option Nat
  | 0, _ => none
  | fuel + 1, s =>
    if s + wanted.size > text.size then none
    else if text.extract s (s + wanted.size) == wanted then some s
    else plainSearch text wanted fuel (s + 1)

def numbers (first last : Nat) : List Value :=
  [.int (Int32.ofNat first), .int (Int32.ofNat last)]

def findOrMatch (isFind : Bool) : Act (List Value) := do
  let text ← args.string 1
  let pattern ← args.string 2
  let start := max 1 (place (← args.optInt 3 1) text.size)
  if start > text.size + 1 then return [.nil]
  else
    let s := start.toNat - 1
    let isPlain := (args.get 4).truthy || !pattern.toList.any specials.contains
    if isFind && isPlain then
      match plainSearch text pattern (text.size + 1) s with
      | some i => return numbers (i + 1) (i + pattern.size)
      | none => return [.nil]
    else
      let m : Subject := { text, pattern }
      let anchored := byteAt? pattern 0 == some 94
      match ← orFail (m.search anchored (if anchored then 1 else 0) (text.size + 2) s) with
      | none => return [.nil]
      | some (first, stop, captures) =>
        let values ← orFail (m.captureValues captures first stop (!isFind))
        return if isFind then numbers (first + 1) stop ++ values else values

def strFind : Act (List Value) := findOrMatch args true

def strMatch : Act (List Value) := findOrMatch args false

def strGmatch : Act (List Value) := do
  let text ← args.string 1
  let pattern ← args.string 2
  return [← Act.newClosure (.matches text pattern 0 none)]

/-- The first match at `s` or after it that does not end where the last one did. -/
def freshMatch (m : Subject) (lastEnd : Option Nat) :
    Nat → Nat → Except String (Option (Nat × Nat × Array Capture))
  | 0, _ => .ok none
  | fuel + 1, s => do
    if s > m.text.size then return none
    else
      match ← m.matchAt s 0 with
      | some (stop, captures) =>
        if some stop == lastEnd then freshMatch m lastEnd fuel (s + 1)
        else return some (s, stop, captures)
      | none => freshMatch m lastEnd fuel (s + 1)

/-- The next match of an iterator. -/
def nextMatchAct (id : Nat) : Act (List Value) := do
  match ← Act.query fun s => s.closures.getD id default with
  | .matches text pattern position lastEnd =>
    let m : Subject := { text, pattern }
    match ← orFail (freshMatch m lastEnd (text.size + 2) position) with
    | none => return []
    | some (first, stop, captures) =>
      Act.update fun s => { s with
        closures := s.closures.setIfInBounds id (.matches text pattern stop (some stop)) }
      orFail (m.captureValues captures first stop true)
  | _ => return [.nil]

def nextMatch (id : Nat) : Program := (nextMatchAct id).toProgram

/-! ### Replacement -/

/-- A replacement text with the captures it mentions put in. -/
def expand (m : Subject) (captures : Array Capture) (first stop : Nat) :
    List UInt8 → Bytes → Except String Bytes
  | [], done => .ok done
  | 37 :: c :: rest, done =>
    if c == 37 then expand m captures first stop rest (done.push 37)
    else if c == 48 then expand m captures first stop rest (done ++ m.text.extract first stop)
    else if Pattern.isDigit c then
      match m.captureValue captures (c.toNat - 49) first stop with
      | .error e =>
        .error (if e.startsWith "invalid capture" then e ++ " in replacement string" else e)
      | .ok v =>
        expand m captures first stop rest (done ++ (Arguments.text? v).getD ByteArray.empty)
    else .error "invalid use of '%' in replacement string"
  | [37], _ => .error "invalid use of '%' in replacement string"
  | c :: rest, done => expand m captures first stop rest (done.push c)

/-- A replacement on its way through a text. -/
structure Replacing where
  position : Nat := 0
  lastEnd : Option Nat := none
  done : Bytes := ByteArray.empty
  count : Nat := 0
  deriving Inhabited

/-- The replacement after a match has been dealt with. -/
def Replacing.after (r : Replacing) (m : Subject) (first stop : Nat) (text : Bytes) : Replacing :=
  { position := stop
    lastEnd := some stop
    done := r.done ++ m.text.extract r.position first ++ text
    count := r.count + 1 }

/-- The next match to be replaced; an anchored pattern is tried at the start only. -/
def Replacing.next (r : Replacing) (m : Subject) (anchored : Bool) :
    Except String (Option (Nat × Nat × Array Capture)) :=
  if anchored then
    if r.count > 0 then .ok none else m.search true 1 1 0
  else freshMatch m r.lastEnd (m.text.size + 2) r.position

/-- Replaces by a text with marks for captures. -/
def replaceByText (m : Subject) (anchored : Bool) (limit : Nat) (template : List UInt8) :
    Nat → Replacing → Except String Replacing
  | 0, r => .ok r
  | fuel + 1, r =>
    if r.count ≥ limit then .ok r
    else
      match r.next m anchored with
      | .error e => .error e
      | .ok none => .ok r
      | .ok (some (first, stop, captures)) =>
        match expand m captures first stop template ByteArray.empty with
        | .error e => .error e
        | .ok text => replaceByText m anchored limit template fuel (r.after m first stop text)

/-- What a table or a function gives for a match. -/
def replacement (m : Subject) (captures : Array Capture) (first stop : Nat) : Act Bytes := do
  let given ← match args.get 3 with
    | .table t => do
      let key ← orFail (m.captureValue captures 0 first stop)
      Act.index (.table t) key
    | f => do
      let values ← orFail (m.captureValues captures first stop true)
      pure ((← Act.call f values).headD .nil)
  if !given.truthy then return m.text.extract first stop
  else
    match Arguments.text? given with
    | some s => return s
    | none => Act.fail ("invalid replacement value (a " ++ given.typeName ++ ")")

def replaceFrom (m : Subject) (anchored : Bool) (limit : Nat) : Nat → Replacing → Act Replacing
  | 0, r => pure r
  | fuel + 1, r => do
    if r.count ≥ limit then return r
    else
      match ← orFail (r.next m anchored) with
      | none => return r
      | some (first, stop, captures) =>
        let text ← replacement args m captures first stop
        replaceFrom m anchored limit fuel (r.after m first stop text)

def strGsub : Act (List Value) := do
  let text ← args.string 1
  let pattern ← args.string 2
  let v := args.get 3
  let suitable := v.isFunction || (Arguments.text? v).isSome ||
    (match v with | .table _ => true | _ => false)
  Act.require suitable 3 "string/function/table expected"
  let limit ← args.optInt 4 (Int32.ofNat (text.size + 1))
  let anchored := byteAt? pattern 0 == some 94
  let m : Subject := { text, pattern }
  let rounds := text.size + 2
  let r ← match Arguments.text? v with
    | some template =>
      orFail (replaceByText m anchored limit.toNatClampNeg template.toList rounds {})
    | none => replaceFrom args m anchored limit.toNatClampNeg rounds {}
  return [.string (r.done ++ text.extract r.position text.size), .int (Int32.ofNat r.count)]

end LuaHost.Guest.Library
