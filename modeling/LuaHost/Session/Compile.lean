import LuaHost.Session.World
/-!
Chunks: source text as it is handed to the guest, and its compilation. A session compiles a chunk when
it first needs it and keeps the function until the chunk is released there.
-/

namespace LuaHost

namespace Chunk

/-- The name under which source text is reported: a given name stands for itself, and text without a
name is its own name. -/
def nameFor (source : String) : Option String → String
  | some name => "=" ++ name
  | none => source

def newline : UInt8 := 10
def hash : UInt8 := 35

/-- The source text in a file: a first line that starts with `#` is left out, up to its line break. -/
def withoutFirstLine (content : ByteArray) : ByteArray :=
  if Guest.byteAt? content 0 == some hash then
    match content.toList.findIdx? (· == newline) with
    | some i => content.extract i content.size
    | none => ByteArray.empty
  else content

def ofText (source : String) (name : Option String) : Chunk := ⟨Text.encode source, nameFor source name⟩

def ofFile (path : String) (content : ByteArray) : Chunk := ⟨withoutFirstLine content, "@" ++ path⟩

/-- Compiles a chunk where calls are nested so deep, or tells what is wrong with it. -/
def compile (chunk : Chunk) (depth : Nat) : Except Guest.Bytes Guest.Prototype :=
  let name := Text.encode chunk.name
  if Guest.byteAt? chunk.source 0 == some Guest.Library.binaryMark then
    .error (Guest.Library.binaryFailure chunk.source name)
  else
    match Guest.Compiler.compile chunk.source name depth with
    | .ok p => .ok p
    | .error e => .error e.message

end Chunk

namespace World

variable {σ : Type} (w : World σ)

def addChunk (chunk : Chunk) : World σ × Nat := ({ w with chunks := w.chunks.push chunk }, w.chunks.size)

def chunk (id : Nat) : Chunk := (w.chunks[id]?).getD default

/-- Makes a compiled chunk a function of the guest and keeps it. -/
def keepCompiled (session chunk : Nat) (p : Guest.Prototype) : World σ × Nat :=
  let id := (w.machine session).store.closures.size
  let w := w.modifyMachine session fun m =>
    { m with store := (m.store.loadPrototype p (.table m.store.globals)).1 }
  let (w, slot) := w.occupy session (.closure id)
  (w.modifyLedger session (·.addCompiled chunk slot), slot)

/-- The slot with the function of a chunk in a session, compiled if need be. -/
def compile (session chunk : Nat) : World σ × Except Outcome Nat :=
  match (w.ledger session).compiledSlot? chunk with
  | some slot => (w, .ok slot)
  | none =>
    match (w.chunk chunk).compile (w.machine session).mainDepth with
    | .error message =>
      let message := Text.decode message
      let (w, o) := w.fail session (.syntaxError message (Text.Location.ofMessage? message))
      (w, .error o)
    | .ok p =>
      let (w, slot) := w.keepCompiled session chunk p
      (w, .ok slot)

/-- Compiles a chunk and ends with it. -/
def load (session chunk : Nat) : World σ × Outcome :=
  match w.compile session chunk with
  | (w, .error o) => (w, o)
  | (w, .ok _) => w.succeed session (.chunk chunk (w.chunk chunk))

/-- Gives the compiled form of a chunk back. -/
def releaseChunk (session chunk : Nat) : World σ :=
  match (w.ledger session).compiledSlot? chunk with
  | none => w
  | some slot => (w.vacate session slot).modifyLedger session (·.removeCompiled chunk)

end World

end LuaHost
