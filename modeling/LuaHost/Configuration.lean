import LuaHost.StandardLibrary
import LuaHost.Directory
import LuaHost.Record
import LuaHost.Failure.Basic
import LuaHost.Text.Replacement
import LuaHost.Yaml.Document
/-!
What can be configured of a session: the libraries to open, and where the guest looks for more. A
configuration is a YAML document; an empty one stands for the defaults.
-/

namespace LuaHost

structure Configuration where
  libraries : LibraryChoice := .all
  packagePath : Option String := none
  deriving Repr, DecidableEq, Inhabited

/-- Why there is no configuration. -/
inductive ConfigurationError where
  | unreadable (path : String) (e : ReadError)
  | noDocument
  | noMapping
  | unknownKey (key : String)
  | noLibraries
  | unknownLibrary (name : String)
  /-- A library is given by something that has no text. -/
  | namelessLibrary
  | noPath
  deriving DecidableEq, Repr, Inhabited

namespace ConfigurationError

def reason : ConfigurationError → String
  | unreadable path e => "failed to read file (" ++ e.message path ++ ")"
  | noDocument => "invalid YAML (...)"
  | noMapping => "must be a mapping"
  | unknownKey key => "unknown key " ++ key
  | noLibraries => "libraries must be 'all' or a list of library names"
  | unknownLibrary name => "unknown library " ++ name
  | namelessLibrary => ""
  | noPath => "packagePath must be a string"

end ConfigurationError

namespace Configuration

open Yaml (Node)

/-- The name of the file that holds a configuration. -/
def fileName : String := ".lua-bridge.yaml"

def librariesKey : String := "libraries"
def pathKey : String := "packagePath"

/-- The value that stands for all libraries. -/
def allLibraries : String := "all"

/-- The library that an item of the list names. -/
def libraryOf (n : Node) : Except ConfigurationError StandardLibrary :=
  let named : Option StandardLibrary := match n with
    | .string s => StandardLibrary.ofName? s
    | _ => none
  match named with
  | some l => .ok l
  | none =>
    match n.text? with
    | some t => .error (.unknownLibrary t)
    | none => .error .namelessLibrary

def librariesOf : Node → Except ConfigurationError LibraryChoice
  | .string s => if s == allLibraries then .ok .all else .error .noLibraries
  | .list items => return .only (← items.mapM libraryOf)
  | _ => .error .noLibraries

def pathOf : Node → Except ConfigurationError String
  | .string s => .ok s
  | _ => .error .noPath

/-- The configuration with these entries. A key that is not known is told first. -/
def ofEntries (entries : List (String × Node)) : Except ConfigurationError Configuration := do
  match entries.find? fun e => e.1 != librariesKey && e.1 != pathKey with
  | some e => throw (.unknownKey e.1)
  | none => pure ()
  let value (key : String) : Option Node := (entries.find? (·.1 == key)).map (·.2)
  let libraries ← match value librariesKey with
    | some n => librariesOf n
    | none => pure .all
  let packagePath ← match value pathKey with
    | some n => some <$> pathOf n
    | none => pure none
  return { libraries, packagePath }

def ofNode : Node → Except ConfigurationError Configuration
  | .null => .ok {}
  | .map entries => ofEntries (Record.ofEntries (entries.map fun (k, v) => (k.keyText, v)))
  | _ => .error .noMapping

/-- The configuration that a file holds. -/
def ofBytes (content : ByteArray) : Except ConfigurationError Configuration :=
  match Yaml.parse? (Text.ofBytes content) with
  | some n => ofNode n
  | none => .error .noDocument

/-- The path of the configuration of a directory. -/
def pathIn (directory : String) : String := normalizedPath (directory ++ "/" ++ fileName)

/-- The configuration by the outcome of reading its file; there is none without a file. -/
def ofOutcome (path : String) : ReadOutcome → Except ConfigurationError (Option Configuration)
  | .ok content => some <$> ofBytes content
  | .error .isDirectory => .error (.unreadable path .isDirectory)
  | .error _ => .ok none

end Configuration

namespace ConfigurationError

/-- What is thrown when there is no configuration. -/
def thrown : ConfigurationError → Thrown
  | namelessLibrary => Thrown.noText
  | e => .exception (.ofMessage .error ("Invalid configuration: " ++ e.reason))

end ConfigurationError

end LuaHost
