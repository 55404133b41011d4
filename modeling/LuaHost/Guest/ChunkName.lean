import LuaHost.Guest.Value
/-!
How the name of a chunk is shown. `=name` stands for itself, `@path` for a file, and anything else is
source text, of which the first line is quoted. No shown name is longer than 59 bytes.
-/

namespace LuaHost.Guest.ChunkName

def limit : Nat := 60

def bytes (s : String) : Bytes := Text.encode s

def opening : Bytes := bytes "[string \""
def ellipsis : Bytes := bytes "..."
def closing : Bytes := bytes "\"]"

/-- The bytes before the first zero byte. -/
def untilZero (b : Bytes) : Bytes :=
  match b.toList.findIdx? (· == 0) with
  | some i => b.extract 0 i
  | none => b

/-- What is left for source text between the quotes, an ellipsis included. -/
def textLimit : Nat := limit - (opening.size + ellipsis.size + closing.size + 1)

def ofSource (source : Bytes) : Bytes :=
  let line := match source.toList.findIdx? (· == 10) with
    | some i => source.extract 0 i
    | none => source
  if source.size < textLimit && line.size == source.size then opening ++ source ++ closing
  else opening ++ line.extract 0 textLimit ++ ellipsis ++ closing

/-- The name under which messages show a chunk. -/
def shown (name : Bytes) : Bytes :=
  match name.toList.head? with
  | some 61 => name.extract 1 limit
  | some 64 =>
    if name.size ≤ limit then name.extract 1 name.size
    else ellipsis ++ name.extract (name.size - (limit - ellipsis.size - 1)) name.size
  | _ => ofSource name

/-- A message behind its position; each part ends at its first zero byte. -/
def located (name : Bytes) (line : Nat) (message : Bytes) : Bytes :=
  untilZero (shown name) ++ bytes (":" ++ toString line ++ ": ") ++ untilZero message

end LuaHost.Guest.ChunkName
