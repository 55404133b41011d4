import LuaHost.Guest.Value
/-!
Patterns: classes, sets, repetition, captures and balanced pairs. Matching goes along the pattern, and
each step uses up a part of it; repetitions try the longest or the shortest text first.
-/

namespace LuaHost.Guest.Pattern

/-- A part of the text that was set apart by parentheses. -/
inductive Extent where
  | unfinished
  | position
  | length (n : Nat)
  deriving Inhabited, DecidableEq

structure Capture where
  start : Nat
  extent : Extent
  deriving Inhabited

structure Subject where
  text : Bytes
  pattern : Bytes

/-- Where a match ends, with its captures; nothing if there is none. -/
abbrev Outcome := Except String (Option (Nat × Array Capture))

def maxCaptures : Nat := 32

/-- Constructs that may be nested while matching. -/
def maxDepth : Nat := 200

def escape : UInt8 := 37

def isDigit (c : UInt8) : Bool := 48 ≤ c && c ≤ 57
def isLower (c : UInt8) : Bool := 97 ≤ c && c ≤ 122
def isUpper (c : UInt8) : Bool := 65 ≤ c && c ≤ 90
def isAlpha (c : UInt8) : Bool := isLower c || isUpper c
def isSpace (c : UInt8) : Bool := c == 32 || (9 ≤ c && c ≤ 13)
def isControl (c : UInt8) : Bool := c < 32 || c == 127
def isGraph (c : UInt8) : Bool := 33 ≤ c && c ≤ 126
def isPunctuation (c : UInt8) : Bool := isGraph c && !isAlpha c && !isDigit c
def isHex (c : UInt8) : Bool := isDigit c || (97 ≤ c && c ≤ 102) || (65 ≤ c && c ≤ 70)

def toLower (c : UInt8) : UInt8 := if isUpper c then c + 32 else c
def toUpper (c : UInt8) : UInt8 := if isLower c then c - 32 else c

/-- The class that a letter stands for. -/
def classOf? (letter : UInt8) : Option (UInt8 → Bool) :=
  match Char.ofNat (toLower letter).toNat with
  | 'a' => some isAlpha
  | 'c' => some isControl
  | 'd' => some isDigit
  | 'g' => some isGraph
  | 'l' => some isLower
  | 'p' => some isPunctuation
  | 's' => some isSpace
  | 'u' => some isUpper
  | 'w' => some fun c => isAlpha c || isDigit c
  | 'x' => some isHex
  | 'z' => some fun c => c == 0
  | _ => none

/-- Is `c` in the class behind an escape? A capital letter stands for all that is not in it. -/
def inClass (c letter : UInt8) : Bool :=
  match classOf? letter with
  | some p => if isUpper letter then !p c else p c
  | none => c == letter

namespace Subject

variable (m : Subject)

def at? (p : Nat) : Option UInt8 := byteAt? m.pattern p

def isAt (p : Nat) (c : Char) : Bool := m.at? p == some (UInt8.ofNat c.toNat)

/-- One past the bracket that closes a set. -/
def setEnd : Nat → Nat → Except String Nat
  | 0, _ => .error "malformed pattern (missing ']')"
  | fuel + 1, p =>
    match m.at? p with
    | none => .error "malformed pattern (missing ']')"
    | some c =>
      let p := if c == escape && p + 1 < m.pattern.size then p + 2 else p + 1
      if m.isAt p ']' then .ok (p + 1) else setEnd fuel p

/-- One past the single-character item at `p`. -/
def itemEnd (p : Nat) : Except String Nat :=
  match m.at? p with
  | none => .ok p
  | some c =>
    if c == escape then
      if p + 1 < m.pattern.size then .ok (p + 2)
      else .error "malformed pattern (ends with '%')"
    else if c == 91 then
      m.setEnd (m.pattern.size + 1) (if m.isAt (p + 1) '^' then p + 2 else p + 1)
    else .ok (p + 1)

/-- Is `c` among the items of a set that lie before `stop`? -/
def inSetFrom (c : UInt8) (stop : Nat) : Nat → Nat → Bool
  | 0, _ => false
  | fuel + 1, p =>
    if stop ≤ p then false
    else
      let here := (m.at? p).getD 0
      if here == escape then
        inClass c ((m.at? (p + 1)).getD 0) || inSetFrom c stop fuel (p + 2)
      else if m.isAt (p + 1) '-' && p + 2 < stop then
        let last := (m.at? (p + 2)).getD 0
        (here ≤ c && c ≤ last) || inSetFrom c stop fuel (p + 3)
      else here == c || inSetFrom c stop fuel (p + 1)

/-- Is `c` in the set whose opening bracket is at `p` and whose closing one is at `stop`? -/
def inSet (c : UInt8) (p stop : Nat) : Bool :=
  if m.isAt (p + 1) '^' then !m.inSetFrom c stop (m.pattern.size + 1) (p + 2)
  else m.inSetFrom c stop (m.pattern.size + 1) (p + 1)

/-- Does the item from `p` to `stop` match the character at `s`? -/
def matchesItem (s p stop : Nat) : Bool :=
  match byteAt? m.text s with
  | none => false
  | some c =>
    match m.at? p with
    | none => false
    | some k =>
      if k == 46 then true
      else if k == escape then inClass c ((m.at? (p + 1)).getD 0)
      else if k == 91 then m.inSet c p (stop - 1)
      else k == c

/-- How many characters from `s` on match an item. -/
def countItems (p stop : Nat) : Nat → Nat → Nat
  | 0, _ => 0
  | fuel + 1, s => if m.matchesItem s p stop then countItems p stop fuel (s + 1) + 1 else 0

/-- One past the text between two marks that balance each other. -/
def balanced (opening closing : UInt8) : Nat → Nat → Nat → Option Nat
  | 0, _, _ => none
  | fuel + 1, s, count =>
    match byteAt? m.text s with
    | none => none
    | some c =>
      if c == closing then
        if count == 1 then some (s + 1) else balanced opening closing fuel (s + 1) (count - 1)
      else if c == opening then balanced opening closing fuel (s + 1) (count + 1)
      else balanced opening closing fuel (s + 1) count

/-- The last capture that is still open. -/
def openCapture? (captures : Array Capture) : Option Nat :=
  (List.range captures.size).reverse.find? fun i =>
    match captures[i]? with
    | some c => c.extent == .unfinished
    | none => false

/-- The text of an earlier capture, if it stands at `s` again. -/
def backReference (captures : Array Capture) (digit : UInt8) (s : Nat) : Except String (Option Nat) :=
  let failure := .error ("invalid capture index %" ++ toString ((digit.toNat : Int) - 48))
  if digit == 48 then failure
  else
    match captures[digit.toNat - 49]? with
    | some ⟨start, .length n⟩ =>
      if s + n ≤ m.text.size && m.text.extract start (start + n) == m.text.extract s (s + n) then
        .ok (some (s + n))
      else .ok none
    | some ⟨_, .position⟩ => .ok none
    | _ => failure

/-- Tries ends from the longest to the shortest. -/
def longest (tryAt : Nat → Outcome) (s : Nat) : Nat → Outcome
  | 0 => tryAt s
  | n + 1 => do
    match ← tryAt (s + n + 1) with
    | some r => return some r
    | none => longest tryAt s n

/-- Tries ends from the shortest to the longest, as long as the item matches. -/
def shortest (tryAt : Nat → Outcome) (p stop : Nat) : Nat → Nat → Outcome
  | 0, _ => .ok none
  | fuel + 1, s => do
    match ← tryAt s with
    | some r => return some r
    | none => if m.matchesItem s p stop then shortest tryAt p stop fuel (s + 1) else return none

/-- Matches the pattern from `p` on at `s`. Each call uses up a part of the pattern, so its length
bounds the first argument; the second counts what may still be nested. -/
def matchFrom : Nat → Nat → Nat → Nat → Array Capture → Outcome
  | 0, _, _, _, _ => .ok none
  | fuel + 1, depth, s, p, captures =>
    let deeper (s p : Nat) (captures : Array Capture) : Outcome :=
      match depth with
      | 0 => .error "pattern too complex"
      | d + 1 => matchFrom fuel d s p captures
    let single (_ : Unit) : Outcome := do
      let stop ← m.itemEnd p
      let follow := m.at? stop
      if m.matchesItem s p stop then
        match follow with
        | some 63 =>
          match ← deeper (s + 1) (stop + 1) captures with
          | some r => return some r
          | none => matchFrom fuel depth s (stop + 1) captures
        | some 43 =>
          longest (fun s => deeper s (stop + 1) captures) (s + 1)
            (m.countItems p stop m.text.size (s + 1))
        | some 42 =>
          longest (fun s => deeper s (stop + 1) captures) s (m.countItems p stop m.text.size s)
        | some 45 =>
          m.shortest (fun s => deeper s (stop + 1) captures) p stop (m.text.size + 1) s
        | _ => matchFrom fuel depth (s + 1) stop captures
      else if follow == some 42 || follow == some 63 || follow == some 45 then
        matchFrom fuel depth s (stop + 1) captures
      else return none
    match m.at? p with
    | none => .ok (some (s, captures))
    | some 40 =>
      let isPosition := m.isAt (p + 1) ')'
      if captures.size ≥ maxCaptures then .error "too many captures"
      else if isPosition then deeper s (p + 2) (captures.push ⟨s, .position⟩)
      else deeper s (p + 1) (captures.push ⟨s, .unfinished⟩)
    | some 41 =>
      match openCapture? captures with
      | none => .error "invalid pattern capture"
      | some i =>
        deeper s (p + 1) (captures.modify i fun c => { c with extent := .length (s - c.start) })
    | some 36 =>
      if p + 1 == m.pattern.size then
        .ok (if s == m.text.size then some (s, captures) else none)
      else single ()
    | some 37 =>
      match m.at? (p + 1) with
      | some 98 =>
        match m.at? (p + 2), m.at? (p + 3) with
        | some opening, some closing =>
          if byteAt? m.text s == some opening then
            match m.balanced opening closing (m.text.size + 1) (s + 1) 1 with
            | some s => matchFrom fuel depth s (p + 4) captures
            | none => .ok none
          else .ok none
        | _, _ => .error "malformed pattern (missing arguments to '%b')"
      | some 102 =>
        if !m.isAt (p + 2) '[' then .error "missing '[' after '%f' in pattern"
        else do
          let stop ← m.itemEnd (p + 2)
          let previous := if s == 0 then 0 else (byteAt? m.text (s - 1)).getD 0
          let here := (byteAt? m.text s).getD 0
          if !m.inSet previous (p + 2) (stop - 1) && m.inSet here (p + 2) (stop - 1) then
            matchFrom fuel depth s stop captures
          else return none
      | some c =>
        if isDigit c then do
          match ← m.backReference captures c s with
          | some s => matchFrom fuel depth s (p + 2) captures
          | none => return none
        else single ()
      | none => single ()
    | some _ => single ()

/-- Matches the pattern from its place `p` on at a place of the text. -/
def matchAt (s p : Nat) : Outcome :=
  m.matchFrom (m.pattern.size + 2) (maxDepth - 1) s p #[]

/-- The first match at `s` or after it: where it starts and ends, and its captures. -/
def search (anchored : Bool) (p : Nat) : Nat → Nat → Except String (Option (Nat × Nat × Array Capture))
  | 0, _ => .ok none
  | fuel + 1, s => do
    if s > m.text.size then return none
    else
      match ← m.matchAt s p with
      | some (stop, captures) => return some (s, stop, captures)
      | none => if anchored then return none else search anchored p fuel (s + 1)

/-- The value of a capture; without any captures the first is the whole match. -/
def captureValue (captures : Array Capture) (i start stop : Nat) : Except String Value :=
  match captures[i]? with
  | none =>
    if i == 0 then .ok (.string (m.text.extract start stop))
    else .error ("invalid capture index %" ++ toString (i + 1))
  | some ⟨_, .unfinished⟩ => .error "unfinished capture"
  | some ⟨s, .position⟩ => .ok (.int (Int32.ofNat (s + 1)))
  | some ⟨s, .length n⟩ => .ok (.string (m.text.extract s (s + n)))

/-- All captures; if there are none, the whole match where `whole` asks for it. -/
def captureValues (captures : Array Capture) (start stop : Nat) (whole : Bool) :
    Except String (List Value) :=
  let count := if captures.isEmpty && whole then 1 else captures.size
  (List.range count).mapM fun i => m.captureValue captures i start stop

end Subject

end LuaHost.Guest.Pattern
