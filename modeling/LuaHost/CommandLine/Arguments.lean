/-!
The arguments of the command line. Flags for help and version count at any position; otherwise the
first argument names the script and the rest belong to it.
-/

namespace LuaHost.CommandLine

inductive Request where
  | execute (script : String) (arguments : List String)
  | help
  | version
  deriving Repr, DecidableEq

inductive ArgumentError where
  | missingFile
  | unknownOption (option : String)
  deriving Repr, DecidableEq

def ArgumentError.message : ArgumentError → String
  | missingFile => "Missing file argument"
  | unknownOption o => "Unknown option: " ++ o

/-- The script that stands for standard input. -/
def standardInput : String := "-"

def Request.ofArguments (argv : List String) : Except ArgumentError Request :=
  if argv.contains "--help" || argv.contains "-h" then .ok .help
  else if argv.contains "--version" || argv.contains "-v" then .ok .version
  else
    match argv with
    | [] => .error .missingFile
    | first :: rest =>
      if first.isEmpty then .error .missingFile
      else if first.startsWith "-" && first != standardInput then .error (.unknownOption first)
      else .ok (.execute first rest)

end LuaHost.CommandLine
