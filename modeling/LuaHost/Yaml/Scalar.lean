import LuaHost.Yaml.Cursor
/-!
Scalars: plain ones, quoted ones, and blocks of lines. A line break inside a scalar counts as a space,
and so many empty lines count as so many line breaks.
-/

namespace LuaHost.Yaml

/-! ### Folding -/

def trimStart (cs : List Char) : List Char := cs.dropWhile isBlank

def trimEnd (cs : List Char) : List Char := (cs.reverse.dropWhile isBlank).reverse

/-- Cuts text at its line breaks. -/
def lines (cs : List Char) : List (List Char) :=
  let (line, done) := cs.foldl (fun (line, done) c =>
    if c == '\n' then ([], line.reverse :: done) else (c :: line, done)) ([], [])
  (line.reverse :: done).reverse

/-- Joins lines behind what has been folded so far; `breaks` empty lines have just been passed. -/
def foldRest : List (List Char) → Nat → List Char → List Char
  | [], _, done => done
  | [last], breaks, done => done ++ separator breaks ++ trimStart last
  | line :: rest, breaks, done =>
    let line := trimEnd (trimStart line)
    if line.isEmpty then foldRest rest (breaks + 1) done
    else foldRest rest 0 (done ++ separator breaks ++ line)
where
  separator (breaks : Nat) : List Char :=
    if breaks == 0 then [' '] else List.replicate breaks '\n'

/-- Folds the lines of a scalar into one text. -/
def foldLines (cs : List Char) : List Char :=
  match lines cs with
  | first :: second :: rest => foldRest (second :: rest) 0 (trimEnd first)
  | _ => cs

namespace Reader

/-! ### Plain scalars -/

/-- Characters that no plain scalar starts with. -/
def reserved : List Char :=
  [',', '[', ']', '\x7b', '\x7d', '#', '&', '*', '!', '|', '>', '\'', '"', '%', '@', '\x60']

/-- Where a plain scalar ends; `low` is the indentation of further lines, if there may be any. -/
def plainEnd (text : Array Char) (inFlow : Bool) (low : Option Nat) : Nat → Nat → Nat → Nat
  | 0, _, stop => stop
  | fuel + 1, i, stop =>
    let next := text[i + 1]?
    let flowNext := inFlow && next.any isFlowMark
    match text[i]? with
    | none => stop
    | some ':' =>
      if isGap next || flowNext then stop else plainEnd text inFlow low fuel (i + 1) (i + 1)
    | some '\n' =>
      if next == some '#' || flowNext then stop
      else
        match low.bind fun low => Cursor.continuation? text low (i + 1) with
        | none => stop
        | some start => plainEnd text inFlow low fuel (max (i + 1) (start - 1)) stop
    | some c =>
      if isBlank c then
        if next == some '#' || flowNext then stop else plainEnd text inFlow low fuel (i + 1) stop
      else if inFlow && isFlowMark c then stop
      else plainEnd text inFlow low fuel (i + 1) (i + 1)

def canStartPlain (inFlow : Bool) (first second : Option Char) : Bool :=
  match first with
  | none => false
  | some c =>
    if ['-', '?', ':'].contains c then !isGap second && !(inFlow && second.any isFlowMark)
    else !reserved.contains c

def plain (inFlow : Bool) (low : Option Nat) : Reader String := do
  if !canStartPlain inFlow (← peek 0) (← peek 1) then failure
  let c ← get
  let stop := plainEnd c.text inFlow low (c.text.size + 1) c.position c.position
  set { c with position := stop }
  return String.ofList (foldLines (c.text.extract c.position stop).toList)

/-! ### Quoted scalars -/

/-- The place of the closing quote; every line has to be indented by `low`. -/
def closing? (text : Array Char) (quote : Char) (low : Nat) : Nat → Nat → Option Nat
  | 0, _ => none
  | fuel + 1, i =>
    match text[i]? with
    | none => none
    | some '\n' =>
      (Cursor.continuation? text low (i + 1)).bind fun _ => closing? text quote low fuel (i + 1)
    | some c =>
      if c == '\\' && quote == '"' && text[i + 1]? != some '\n' then closing? text quote low fuel (i + 2)
      else if c == quote then
        if quote == '\'' && text[i + 1]? == some '\'' then closing? text quote low fuel (i + 2)
        else some i
      else closing? text quote low fuel (i + 1)

/-- A quote that is written twice in a single-quoted scalar. -/
def undouble : List Char → List Char
  | '\'' :: '\'' :: rest => '\'' :: undouble rest
  | c :: rest => c :: undouble rest
  | [] => []

def escapes : List (Char × Nat) := [
  ('0', 0), ('a', 7), ('b', 8), ('e', 27), ('f', 12), ('n', 10), ('r', 13), ('t', 9), ('v', 11),
  ('N', 0x85), ('_', 0xa0), ('L', 0x2028), ('P', 0x2029), (' ', 32), ('"', 34), ('/', 47),
  ('\\', 92), ('\t', 9)]

def codeLength : Char → Option Nat
  | 'x' => some 2
  | 'u' => some 4
  | 'U' => some 8
  | _ => none

/-- The number that so many hexadecimal digits denote, and what follows them. -/
def code? (count : Nat) (cs : List Char) : Option (Nat × List Char) :=
  if cs.length < count then none
  else (Node.digits? 16 (cs.take count)).map fun n => (n, cs.drop count)

/-- A character by its code; two halves of a pair are one character. -/
def codeChar? (n : Nat) (rest : List Char) : Option (Char × List Char) :=
  if n < 0xd800 || (0xe000 ≤ n && n ≤ 0x10ffff) then some (Char.ofNat n, rest)
  else if n ≤ 0xdfff then
    match rest with
    | '\\' :: 'u' :: after =>
      match code? 4 after with
      | some (low, rest') =>
        if n < 0xdc00 && 0xdc00 ≤ low && low ≤ 0xdfff then
          some (Char.ofNat (0x10000 + (n - 0xd800) * 0x400 + (low - 0xdc00)), rest')
        else some (Char.ofNat 0xfffd, rest)
      | none => some (Char.ofNat 0xfffd, rest)
    | _ => some (Char.ofNat 0xfffd, rest)
  else none

/-- The text between double quotes. -/
def unescape : Nat → List Char → List Char → Option (List Char)
  | 0, _, done => some done.reverse
  | _, [], done => some done.reverse
  | fuel + 1, '\\' :: '\n' :: rest, done => unescape fuel (trimStart rest) done
  | fuel + 1, '\\' :: c :: rest, done =>
    match escapes.find? (·.1 == c), codeLength c with
    | some (_, n), _ => unescape fuel rest (Char.ofNat n :: done)
    | none, some count => do
      let (n, rest) ← code? count rest
      let (c, rest) ← codeChar? n rest
      unescape fuel rest (c :: done)
    | none, none => none
  | _, ['\\'], _ => none
  | fuel + 1, '\n' :: rest, done =>
    let isSpace (c : Char) : Bool := isBlank c || c == '\n'
    let breaks := ((rest.takeWhile isSpace).filter (· == '\n')).length
    let fold := if breaks == 0 then [' '] else List.replicate breaks '\n'
    unescape fuel (rest.dropWhile isSpace) (fold ++ done)
  | fuel + 1, c :: rest, done =>
    if isBlank c then
      let blanks := (c :: rest).takeWhile isBlank
      let rest := (c :: rest).dropWhile isBlank
      unescape fuel rest (if rest.head? == some '\n' then done else blanks.reverse ++ done)
    else unescape fuel rest (c :: done)

def quoted (quote : Char) (low : Nat) : Reader String := do
  let c ← get
  let start := c.position + 1
  match closing? c.text quote low (c.text.size + 1) start with
  | none => failure
  | some stop =>
    set { c with position := stop + 1 }
    let body := (c.text.extract start stop).toList
    if quote == '"' then
      match unescape (body.length + 1) body [] with
      | some cs => return String.ofList cs
      | none => failure
    else return String.ofList (undouble (foldLines body))

/-! ### Blocks -/

/-- What the line breaks at the end of a block come to. -/
inductive Chomping where
  | strip
  | clip
  | keep
  deriving DecidableEq, Repr, Inhabited

structure BlockHeader where
  isFolded : Bool
  chomping : Chomping := .clip
  /-- The indentation, if it is given. -/
  indentation : Option Nat := none
  deriving Inhabited

def BlockHeader.ofMarks (isFolded : Bool) : List Char → Option BlockHeader
  | [] => some { isFolded }
  | c :: rest =>
    (ofMarks isFolded rest).bind fun h =>
      if c == '-' || c == '+' then
        if h.chomping == .clip then some { h with chomping := if c == '-' then .strip else .keep }
        else none
      else if '1' ≤ c && c ≤ '9' && h.indentation.isNone then
        some { h with indentation := some (c.toNat - '0'.toNat) }
      else none

/-- A line of a block: its indentation, and what follows. -/
abbrev BlockLine := Nat × List Char

def blockLine (cs : List Char) : BlockLine :=
  let spaces := cs.takeWhile (· == ' ')
  (spaces.length, cs.drop spaces.length)

/-- Does a line belong to a block that is indented by `depth`? -/
def belongs (depth : Nat) (line : BlockLine) : Bool :=
  line.2.isEmpty || (depth ≤ line.1
    && !(depth == 0 && line.1 == 0 && Cursor.isMarker line.2.toArray 0))

/-- A line without the indentation of its block. -/
def dedent (depth : Nat) (line : BlockLine) : List Char :=
  List.replicate (line.1 - depth) ' ' ++ line.2

/-- Joins the lines of a folded block. -/
def foldBlock (depth : Nat) : List BlockLine → List Char → Bool → List Char → List Char
  | [], _, _, done => done
  | line :: rest, separator, wasIndented, done =>
    if line.1 > depth || line.2.head? == some '\t' then
      let separator :=
        if separator == [' '] then ['\n']
        else if !wasIndented && separator == ['\n'] then ['\n', '\n']
        else separator
      foldBlock depth rest ['\n'] true (done ++ separator ++ dedent depth line)
    else if line.2.isEmpty then
      if separator == ['\n'] then foldBlock depth rest separator wasIndented (done ++ ['\n'])
      else foldBlock depth rest ['\n'] wasIndented done
    else foldBlock depth rest [' '] false (done ++ separator ++ line.2)

/-- The lines of a literal block. -/
def joinBlock (depth : Nat) : List BlockLine → List Char → List Char → List Char
  | [], _, done => done
  | line :: rest, separator, done => joinBlock depth rest ['\n'] (done ++ separator ++ dedent depth line)

/-- The text of a block: its lines from the first that is not empty, and the empty ones at its end. -/
def blockText (h : BlockHeader) (depth : Nat) (block : List BlockLine) : List Char :=
  let isEmpty (line : BlockLine) : Bool := line.2.isEmpty && line.1 ≤ depth
  let trailing := (block.reverse.takeWhile isEmpty).reverse
  let content := block.take (block.length - trailing.length)
  if content.all (·.2.isEmpty) then
    if h.chomping == .keep then List.replicate (max 1 (block.length - 1)) '\n' else []
  else
    let leading := content.takeWhile (·.2.isEmpty)
    let body := content.drop leading.length
    let start := leading.flatMap fun line => List.replicate (line.1 - depth) ' ' ++ ['\n']
    let value := if h.isFolded then foldBlock depth body [] false start else joinBlock depth body [] start
    match h.chomping with
    | .strip => value
    | .clip => value ++ ['\n']
    | .keep =>
      let value := value ++ trailing.flatMap fun line => '\n' :: List.replicate (line.1 - depth) ' '
      if value.getLast? == some '\n' then value else value ++ ['\n']

/-- The indentation of a block: given, or that of its first line that is not empty. -/
def blockDepth? (h : BlockHeader) (low : Nat) (all : List BlockLine) : Option Nat :=
  match h.indentation with
  | some n => some (low - 1 + n)
  | none =>
    let leading := all.takeWhile (·.2.isEmpty)
    match all.drop leading.length with
    | [] => some (leading.foldl (fun n line => max n line.1) low)
    | first :: _ =>
      if first.1 < low then some low
      else if leading.any (·.1 > first.1) then none
      else some first.1

/-- A block of lines that are indented by `low` or more. -/
def block (low : Nat) : Reader String := do
  let isFolded := (← peek 0) == some '>'
  advance 1
  let marks ← takeWhile fun c => c == '-' || c == '+' || Node.isDigit c
  match BlockHeader.ofMarks isFolded marks.toList with
  | none => failure
  | some h =>
    lineEnd
    skipComment
    if (← peek 0).isNone then return ""
    advance 1
    let c ← get
    let all := (lines (c.text.extract c.position c.text.size).toList).map blockLine
    match blockDepth? h low all with
    | none => failure
    | some depth =>
      let own := all.takeWhile (belongs depth)
      let rest := all.drop own.length
      let length := own.foldl (fun n line => n + line.1 + line.2.length + 1) 0
      set { c with position := min c.text.size (c.position + length) }
      let own := if rest.isEmpty then own else own ++ [(0, [])]
      return String.ofList (blockText h depth own)

end Reader

end LuaHost.Yaml
