import LuaHost.Guest.ChunkName
import LuaHost.Guest.Numeral
/-!
The tokens of guest source text.
-/

namespace LuaHost.Guest

inductive TokenKind where
  | char (c : UInt8)
  | and | break | do | else | elseif | end | false | for | function | goto | if | in | local | nil
  | not | or | repeat | return | then | true | until | while
  | idiv | concat | dots | eq | ge | le | ne | shl | shr | dbcolon
  | eos | float | int | name | string
  deriving DecidableEq, Repr, Inhabited

namespace TokenKind

def words : List (TokenKind × String) := [
  (.and, "and"), (.break, "break"), (.do, "do"), (.else, "else"), (.elseif, "elseif"),
  (.end, "end"), (.false, "false"), (.for, "for"), (.function, "function"), (.goto, "goto"),
  (.if, "if"), (.in, "in"), (.local, "local"), (.nil, "nil"), (.not, "not"), (.or, "or"),
  (.repeat, "repeat"), (.return, "return"), (.then, "then"), (.true, "true"), (.until, "until"),
  (.while, "while")]

def marks : List (TokenKind × String) := [
  (.idiv, "//"), (.concat, ".."), (.dots, "..."), (.eq, "=="), (.ge, ">="), (.le, "<="),
  (.ne, "~="), (.shl, "<<"), (.shr, ">>"), (.dbcolon, "::")]

def classes : List (TokenKind × String) := [
  (.eos, "<eof>"), (.float, "<number>"), (.int, "<integer>"), (.name, "<name>"),
  (.string, "<string>")]

def ofWord (bytes : Bytes) : Option TokenKind :=
  (words.find? fun w => Text.encode w.2 == bytes).map (·.1)

def quote (s : String) : String := "'" ++ s ++ "'"

/-- The text of a kind in messages: words and marks are quoted, classes are not. -/
def text : TokenKind → String
  | .char c =>
    if 0x20 ≤ c && c ≤ 0x7e then quote (Char.ofNat c.toNat).toString
    else quote ("<\\" ++ toString c.toNat ++ ">")
  | k =>
    match (words ++ marks).find? (·.1 == k) with
    | some w => quote w.2
    | none => ((classes.find? (·.1 == k)).map (·.2)).getD ""

/-- Is a token of this kind shown by its own text? -/
def showsText (k : TokenKind) : Bool :=
  k == .float || k == .int || k == .name || k == .string

end TokenKind

structure Token where
  kind : TokenKind
  text : Bytes := ByteArray.empty
  number : Value := .nil
  deriving Inhabited

/-- Source text that does not compile; the message names chunk and line. -/
structure CompileError where
  message : Bytes
  deriving Inhabited

end LuaHost.Guest
