import LuaHost.Guest.Token
/-!
Reads source text token by token. The bytes of the token being read are kept, because an error shows
them as they stand so far.
-/

namespace LuaHost.Guest

structure Lexer where
  source : Bytes
  chunk : Bytes
  position : Nat := 0
  line : Nat := 1
  /-- The bytes of the token being read. -/
  buffer : Bytes := ByteArray.empty
  deriving Inhabited

abbrev LexM := EStateM CompileError Lexer

namespace Lexer

def byte (c : Char) : UInt8 := UInt8.ofNat c.toNat

def isNewline (c : UInt8) : Bool := c == 10 || c == 13

def isSpace (c : UInt8) : Bool := c == 32 || (9 ≤ c && c ≤ 13)

def isDigit (c : UInt8) : Bool := 48 ≤ c && c ≤ 57

def hexDigit? (c : UInt8) : Option Nat := Numeral.hexValue? (Char.ofNat c.toNat)

def isNameStart (c : UInt8) : Bool := (65 ≤ c && c ≤ 90) || (97 ≤ c && c ≤ 122) || c == 95

def isNamePart (c : UInt8) : Bool := isNameStart c || isDigit c

/-- How a token of this kind is shown; names, texts and numbers show what was read of them. -/
def shownToken (lexer : Lexer) (kind : TokenKind) : Bytes :=
  if kind.showsText then
    ChunkName.bytes "'" ++ ChunkName.untilZero lexer.buffer ++ ChunkName.bytes "'"
  else ChunkName.bytes kind.text

/-- A message behind the position of the lexer, and the token it is about. A zero byte is not shown. -/
def failure (lexer : Lexer) (message : Bytes) (near : Option TokenKind) : CompileError :=
  let located := ChunkName.located lexer.chunk lexer.line message
  match near with
  | none => ⟨located⟩
  | some (.char 0) => ⟨located⟩
  | some kind => ⟨located ++ ChunkName.bytes " near " ++ shownToken lexer kind⟩

def fail {α : Type} (message : String) (near : Option TokenKind) : LexM α := do
  throw ((← get).failure (ChunkName.bytes message) near)

def current : LexM (Option UInt8) := do
  let s ← get
  return s.source[s.position]?

def advance : LexM Unit :=
  modify fun s => { s with position := s.position + 1 }

def save (c : UInt8) : LexM Unit :=
  modify fun s => { s with buffer := s.buffer.push c }

/-- Takes the last bytes back out of the buffer. -/
def unsave (count : Nat) : LexM Unit :=
  modify fun s => { s with buffer := s.buffer.extract 0 (s.buffer.size - count) }

def saveAndAdvance : LexM Unit := do
  match ← current with
  | some c => save c
  | none => pure ()
  advance

def currentIs (p : UInt8 → Bool) : LexM Bool := do
  return (← current).any p

def takeIf (c : Char) : LexM Bool := do
  if ← currentIs (· == byte c) then
    advance
    return true
  else return false

/-- Goes past a line break; a carriage return and a line feed next to each other are one. -/
def newline : LexM Unit := do
  let first ← current
  advance
  let second ← current
  if second.any isNewline && second != first then advance
  modify fun s => { s with line := s.line + 1 }

def saveWhile (p : UInt8 → Bool) : Nat → LexM Nat
  | 0 => return 0
  | fuel + 1 => do
    if ← currentIs p then
      saveAndAdvance
      return (← saveWhile p fuel) + 1
    else return 0

def skipLine : Nat → LexM Unit
  | 0 => return
  | fuel + 1 => do
    match ← current with
    | none => return
    | some c =>
      if isNewline c then return
      else
        advance
        skipLine fuel

/-- Reads a bracket and the equals signs after it. Their number comes back if the same bracket
follows; otherwise `none`, with the number. -/
def bracketLevel (fuel : Nat) : LexM (Bool × Nat) := do
  let bracket ← current
  saveAndAdvance
  let count ← saveWhile (· == byte '=') fuel
  return ((← current) == bracket, count)

def longBody (isComment : Bool) (level line : Nat) : Nat → LexM Unit
  | 0 => return
  | fuel + 1 => do
    match ← current with
    | none =>
      let what := if isComment then "comment" else "string"
      fail ("unfinished long " ++ what ++ " (starting at line " ++ toString line ++ ")") (some .eos)
    | some c =>
      if c == byte ']' then
        let (closes, count) ← bracketLevel fuel
        if closes && count == level then saveAndAdvance
        else longBody isComment level line fuel
      else if isNewline c then
        save 10
        newline
        if isComment then modify fun s => { s with buffer := ByteArray.empty }
        longBody isComment level line fuel
      else
        if isComment then advance else saveAndAdvance
        longBody isComment level line fuel

/-- A long string or comment, from its second opening bracket on. -/
def longBracket (isComment : Bool) (level fuel : Nat) : LexM Bytes := do
  let line := (← get).line
  saveAndAdvance
  if ← currentIs isNewline then newline
  longBody isComment level line fuel
  let text := (← get).buffer
  return text.extract (level + 2) (text.size - (level + 2))

/-- An escape sequence that does not fit: the offending byte is shown too. -/
def checkEscape (ok : Bool) (message : String) : LexM Unit := do
  if !ok then
    if (← current).isSome then saveAndAdvance
    fail message (some .string)

def hexEscapeDigit : LexM Nat := do
  saveAndAdvance
  match (← current).bind hexDigit? with
  | some d => return d
  | none =>
    checkEscape false "hexadecimal digit expected"
    return 0

def utf8EscapeDigits (value removed : Nat) : Nat → LexM (Nat × Nat)
  | 0 => return (value, removed)
  | fuel + 1 => do
    saveAndAdvance
    match (← current).bind hexDigit? with
    | some d =>
      let value := value * 16 + d
      checkEscape (value ≤ 0x10ffff) "UTF-8 value too large"
      utf8EscapeDigits value (removed + 1) fuel
    | none => return (value, removed)

/-- The bytes of a code point, also of one that is no character. -/
def utf8Bytes (n : Nat) : List UInt8 :=
  let tail (k : Nat) : UInt8 := UInt8.ofNat (0x80 + n / Nat.pow 64 k % 64)
  if n < 0x80 then [UInt8.ofNat n]
  else if n < 0x800 then [UInt8.ofNat (0xc0 + n / 64), tail 0]
  else if n < 0x10000 then [UInt8.ofNat (0xe0 + n / 4096), tail 1, tail 0]
  else if n < 0x200000 then [UInt8.ofNat (0xf0 + n / 262144), tail 2, tail 1, tail 0]
  else if n < 0x4000000 then
    [UInt8.ofNat (0xf8 + n / Nat.pow 64 4), tail 3, tail 2, tail 1, tail 0]
  else [UInt8.ofNat (0xfc + n / Nat.pow 64 5 % 2), tail 4, tail 3, tail 2, tail 1, tail 0]

def utf8Escape (fuel : Nat) : LexM Unit := do
  saveAndAdvance
  checkEscape (← currentIs (· == byte '{')) "missing '\x7b'"
  let first ← hexEscapeDigit
  let (value, removed) ← utf8EscapeDigits first 4 fuel
  checkEscape (← currentIs (· == byte '}')) "missing '\x7d'"
  advance
  unsave removed
  for c in utf8Bytes value do save c

def decimalEscape : Nat → Nat → Nat → LexM (Nat × Nat)
  | 0, value, count => return (value, count)
  | fuel + 1, value, count => do
    match ← current with
    | some c =>
      if isDigit c then
        saveAndAdvance
        decimalEscape fuel (value * 10 + (c.toNat - 48)) (count + 1)
      else return (value, count)
    | none => return (value, count)

def skipBlanks : Nat → LexM Unit
  | 0 => return
  | fuel + 1 => do
    match ← current with
    | none => return
    | some c =>
      if isNewline c then
        newline
        skipBlanks fuel
      else if isSpace c then
        advance
        skipBlanks fuel
      else return

def simpleEscape? (c : Char) : Option UInt8 :=
  match c with
  | 'a' => some 7
  | 'b' => some 8
  | 'f' => some 12
  | 'n' => some 10
  | 'r' => some 13
  | 't' => some 9
  | 'v' => some 11
  | '\\' => some 92
  | '"' => some 34
  | '\'' => some 39
  | _ => none

/-- What follows a backslash; the backslash itself is in the buffer. -/
def escape (fuel : Nat) : LexM Unit := do
  match ← current with
  | none => return
  | some c =>
    match simpleEscape? (Char.ofNat c.toNat) with
    | some e =>
      advance
      unsave 1
      save e
    | none =>
      if c == byte 'x' then
        let high ← hexEscapeDigit
        let low ← hexEscapeDigit
        advance
        unsave 3
        save (UInt8.ofNat (high * 16 + low))
      else if c == byte 'u' then utf8Escape fuel
      else if isNewline c then
        newline
        unsave 1
        save 10
      else if c == byte 'z' then
        unsave 1
        advance
        skipBlanks fuel
      else
        checkEscape (isDigit c) "invalid escape sequence"
        let (value, count) ← decimalEscape 3 0 0
        checkEscape (value ≤ 255) "decimal escape too large"
        unsave (count + 1)
        save (UInt8.ofNat value)

def stringBody (delimiter : UInt8) : Nat → LexM Unit
  | 0 => return
  | fuel + 1 => do
    match ← current with
    | none => fail "unfinished string" (some .eos)
    | some c =>
      if c == delimiter then saveAndAdvance
      else if isNewline c then fail "unfinished string" (some .string)
      else
        saveAndAdvance
        if c == byte '\\' then escape fuel
        stringBody delimiter fuel

def quotedString (delimiter : UInt8) (fuel : Nat) : LexM Token := do
  saveAndAdvance
  stringBody delimiter fuel
  let text := (← get).buffer
  return { kind := .string, text := text.extract 1 (text.size - 1) }

def numeralBody (isHex : Bool) : Nat → LexM Unit
  | 0 => return
  | fuel + 1 => do
    match ← current with
    | none => return
    | some c =>
      let isMark := if isHex then c == byte 'p' || c == byte 'P' else c == byte 'e' || c == byte 'E'
      if isMark then
        saveAndAdvance
        if ← currentIs fun c => c == byte '+' || c == byte '-' then saveAndAdvance
        numeralBody isHex fuel
      else if (hexDigit? c).isSome || c == byte '.' then
        saveAndAdvance
        numeralBody isHex fuel
      else return

/-- A numeral, of which a point may have been read already. -/
def numeral (fuel : Nat) : LexM Token := do
  let zero ← currentIs (· == byte '0')
  saveAndAdvance
  let isHex ← if zero then currentIs fun c => c == byte 'x' || c == byte 'X' else pure false
  if isHex then saveAndAdvance
  numeralBody isHex fuel
  match Numeral.ofBytes? (← get).buffer with
  | some (.int n) => return { kind := .int, number := .int n }
  | some v => return { kind := .float, number := v }
  | none => fail "malformed number" (some .float)

def word (fuel : Nat) : LexM Token := do
  let _ ← saveWhile isNamePart fuel
  let text := (← get).buffer
  match TokenKind.ofWord text with
  | some kind => return { kind }
  | none => return { kind := .name, text }

def mark (kind : TokenKind) : LexM Token := return { kind }

/-- A mark that becomes another one if `next` follows. -/
def markOr (c next : Char) (longer : TokenKind) : LexM Token := do
  advance
  if ← takeIf next then mark longer else mark (.char (byte c))

/-- The next token, after blanks and comments. -/
def scan : Nat → LexM Token
  | 0 => mark .eos
  | fuel + 1 => do
    modify fun s => { s with buffer := ByteArray.empty }
    match ← current with
    | none => mark .eos
    | some c =>
      if isNewline c then
        newline
        scan fuel
      else if isSpace c then
        advance
        scan fuel
      else if isNameStart c then word fuel
      else if isDigit c then numeral fuel
      else
        match Char.ofNat c.toNat with
        | '-' =>
          advance
          if !(← takeIf '-') then return { kind := .char c }
          else
            if ← currentIs (· == byte '[') then
              let (opens, level) ← bracketLevel fuel
              modify fun s => { s with buffer := ByteArray.empty }
              if opens then
                let _ ← longBracket true level fuel
              else skipLine fuel
            else skipLine fuel
            scan fuel
        | '[' =>
          let (opens, level) ← bracketLevel fuel
          if opens then return { kind := .string, text := ← longBracket false level fuel }
          else if level == 0 then mark (.char c)
          else fail "invalid long string delimiter" (some .string)
        | '=' => markOr '=' '=' .eq
        | '<' =>
          advance
          if ← takeIf '=' then mark .le
          else if ← takeIf '<' then mark .shl
          else mark (.char c)
        | '>' =>
          advance
          if ← takeIf '=' then mark .ge
          else if ← takeIf '>' then mark .shr
          else mark (.char c)
        | '/' => markOr '/' '/' .idiv
        | '~' => markOr '~' '=' .ne
        | ':' => markOr ':' ':' .dbcolon
        | '"' => quotedString c fuel
        | '\'' => quotedString c fuel
        | '.' =>
          saveAndAdvance
          if ← takeIf '.' then
            if ← takeIf '.' then mark .dots else mark .concat
          else if ← currentIs isDigit then
            numeral fuel
          else mark (.char c)
        | _ =>
          advance
          mark (.char c)

/-- The next token. -/
def next : LexM Token := do
  let s ← get
  scan (s.source.size - s.position + 1)

end Lexer

end LuaHost.Guest
