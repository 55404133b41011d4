import LuaHost.Yaml.Node
/-!
A place in the text of a document, and the ways to get on from there. A reader that comes to nothing
has found that the text is no document.
-/

namespace LuaHost.Yaml

structure Cursor where
  text : Array Char
  position : Nat := 0
  /-- What the anchors stand for, the latest first. -/
  anchors : List (String × Node) := []
  /-- Handles for tags that were declared. -/
  handles : List String := []

abbrev Reader := StateT Cursor Option

def isBlank (c : Char) : Bool := c == ' ' || c == '\t'

/-- The end of a text, a blank and a line break all end a mark. -/
def isGap : Option Char → Bool
  | none => true
  | some c => isBlank c || c == '\n'

def isFlowMark (c : Char) : Bool := [',', '[', ']', '\x7b', '\x7d'].contains c

def isLineEnd : Option Char → Bool
  | none => true
  | some c => c == '\n'

namespace Cursor

variable (text : Array Char)

/-- The place behind the characters from `i` on that satisfy `p`. -/
def after (p : Char → Bool) (i : Nat) : Nat :=
  if h : i < text.size then
    if p text[i] then after p (i + 1) else i
  else i
termination_by text.size - i

/-- The column of a place, counted from zero. -/
def columnOf : Nat → Nat
  | 0 => 0
  | i + 1 => if text[i]? == some '\n' then 0 else columnOf i + 1

def slice (start stop : Nat) : String := String.ofList (text.extract start stop).toList

/-- Is there a mark of a document's start or end? -/
def isMarker (i : Nat) : Bool :=
  let mark := (text.extract i (i + 3)).toList
  (mark == ['-', '-', '-'] || mark == ['.', '.', '.']) && isGap text[i + 3]?

/-- The place where a scalar goes on in the line that starts at `i`, if it does: the line is indented by
`low` or more, or it is empty. Without such a limit only the marks of documents end a scalar. -/
def continuation? (low i : Nat) : Option Nat :=
  if low == 0 then (if isMarker text i then none else some i)
  else
    let start := after text (· == ' ') i
    if text[start]? == some '\n' || start - i ≥ low then
      if start < text.size || start - i ≥ low then some start else none
    else none

end Cursor

namespace Reader

def peek (offset : Nat) : Reader (Option Char) := do
  let c ← get
  return c.text[c.position + offset]?

def advance (n : Nat) : Reader Unit := modify fun c => { c with position := c.position + n }

def column : Reader Nat := do
  let c ← get
  return Cursor.columnOf c.text c.position

/-- Goes on while characters satisfy `p`, and gives them. -/
def takeWhile (p : Char → Bool) : Reader String := do
  let c ← get
  let stop := Cursor.after c.text p c.position
  set { c with position := stop }
  return Cursor.slice c.text c.position stop

def skipBlanks : Reader Unit := discard (takeWhile isBlank)

/-- Is a comment about to start? It is set apart by a blank or by the start of a line. -/
def atComment : Reader Bool := do
  let c ← get
  let apart := c.position == 0 || isGap c.text[c.position - 1]?
  return c.text[c.position]? == some '#' && apart

def skipComment : Reader Unit := do
  if ← atComment then discard (takeWhile (· != '\n'))

/-- Is there a mark and then a gap? -/
def atMark (mark : Char) : Reader Bool := do
  return (← peek 0) == some mark && isGap (← peek 1)

/-- Is the content of the document at its end? -/
def atEnd : Reader Bool := do
  let c ← get
  return c.text.size ≤ c.position
    || (Cursor.columnOf c.text c.position == 0 && Cursor.isMarker c.text c.position)

/-- Skips blanks, comments and line breaks; tells whether there was a line break. -/
def skipGap : Nat → Bool → Reader Bool
  | 0, crossed => return crossed
  | fuel + 1, crossed => do
    skipBlanks
    skipComment
    if (← peek 0) == some '\n' then
      advance 1
      skipGap fuel true
    else return crossed

/-- Goes to the next content. A line of content must not be indented by tabs. -/
def toContent : Reader Bool := do
  let crossed ← skipGap ((← get).text.size + 1) false
  let c ← get
  let indentation := c.text.extract (c.position - Cursor.columnOf c.text c.position) c.position
  if !(← atEnd) && indentation.all isBlank && indentation.contains '\t' then failure
  return crossed

/-- Nothing but a comment may follow on the line. -/
def lineEnd : Reader Unit := do
  skipBlanks
  if !isLineEnd (← peek 0) && !(← atComment) then failure

end Reader

end LuaHost.Yaml
