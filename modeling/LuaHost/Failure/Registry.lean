/-!
The failures the library can report: an identifier, a category and a message template for each.
-/

namespace LuaHost

inductive Category where
  | syntaxError
  | runtime
  | path
  | decode
  | io
  | lineage
  deriving Repr, DecidableEq

def Category.name : Category → String
  | syntaxError => "syntax"
  | runtime => "runtime"
  | path => "path"
  | decode => "decode"
  | io => "io"
  | lineage => "lineage"

structure Definition where
  id : String
  category : Category
  description : String
  template : String
  cause : Option String
  resolution : Option String
  deriving Repr, DecidableEq

namespace Registry

/-- All definitions, in order of their identifiers' families. A placeholder stands between braces. -/
def definitions : List Definition := [
  { id := "LUA-S001"
    category := .syntaxError
    description := "Guest source failed to compile"
    template := "\x7bmessage\x7d"
    cause := "The source text is not valid Lua."
    resolution := "Fix the source at the reported chunk and line. The message is the compiler output, unchanged." },
  { id := "LUA-R001"
    category := .runtime
    description := "Guest code raised an error"
    template := "\x7bmessage\x7d"
    cause := "A guest script called error(), or an operation failed at run time (e.g. calling nil)."
    resolution := "Inspect the message and traceback; both are guest output." },
  { id := "LUA-R002"
    category := .runtime
    description := "Interpreter failure"
    template := "Interpreter failure (\x7bstatus\x7d): \x7bmessage\x7d"
    cause := "The interpreter ran out of memory, or the error handler itself failed."
    resolution := none },
  { id := "LUA-R003"
    category := .runtime
    description := "Host function failed"
    template := "\x7bmessage\x7d"
    cause := "A host function exposed to the guest threw a non-bridge error."
    resolution := "The original error is available as the cause." },
  { id := "LUA-P001"
    category := .path
    description := "Path does not resolve to a value"
    template := "Undefined path: \x7bpath\x7d"
    cause := "A key along the path is absent, an intermediate value is not a table, or the final value is nil."
    resolution := none },
  { id := "LUA-P002"
    category := .path
    description := "Empty key path"
    template := "Invalid path: a key path needs at least one key"
    cause := none
    resolution := "Pass at least one key. The global table is never addressed directly." },
  { id := "LUA-P003"
    category := .path
    description := "Intermediate value is not a table"
    template := "Cannot assign \x7bpath\x7d: \x7bat\x7d holds a \x7bobserved\x7d, not a table"
    cause := "Assignment only creates missing tables; it never replaces an existing non-table value."
    resolution := "Overwrite the intermediate key first, or choose another path." },
  { id := "LUA-P004"
    category := .path
    description := "Path does not resolve to a callable"
    template := "Undefined path: \x7bpath\x7d is a \x7bobserved\x7d, not a function"
    cause := none
    resolution := none },
  { id := "LUA-D001"
    category := .decode
    description := "Value does not match decoder"
    template := "Expected \x7bexpected\x7d, got \x7bobserved\x7d\x7bwhere\x7d"
    cause := none
    resolution := none },
  { id := "LUA-I001"
    category := .io
    description := "File could not be read"
    template := "Cannot read \x7bpath\x7d: \x7breason\x7d"
    cause := none
    resolution := none },
  { id := "LUA-L001"
    category := .lineage
    description := "Stale VM state handle"
    template := "Stale VM state: generation \x7bgeneration\x7d was consumed (current is \x7bcurrent\x7d)"
    cause := "A handle was reused after being passed to an operation."
    resolution := "Always continue with the state an operation returned." },
  { id := "LUA-L002"
    category := .lineage
    description := "Value belongs to another VM"
    template := "A \x7bkind\x7d value from another VM cannot be used here"
    cause := none
    resolution := none },
  { id := "LUA-L003"
    category := .lineage
    description := "VM is closed"
    template := "The VM has been closed"
    cause := none
    resolution := none },
  { id := "LUA-L004"
    category := .lineage
    description := "Value was released"
    template := "A \x7bkind\x7d value was released and cannot be used here"
    cause := none
    resolution := "Read the value again with get() or refGet()." }]

def find? (id : String) : Option Definition :=
  definitions.find? (·.id == id)

end Registry

end LuaHost
