import LuaHost.CommandLine.Arguments
import LuaHost.CommandLine.Report
import LuaHost.Configuration
import LuaHost.Session.Run
/-!
Running a script from the command line: a session is opened as configured, the script's name and its
arguments are put into the global table `arg`, and the script is run.
-/

namespace LuaHost.CommandLine

/-- The lines a command has written, the last one first. -/
structure Console where
  output : List String := []
  errors : List String := []
  deriving Inhabited

namespace Console

def print (c : Console) (line : String) : Console := { c with output := line :: c.output }

def complain (c : Console) (line : String) : Console := { c with errors := line :: c.errors }

end Console

/-- The name under which text from standard input is run. -/
def inputName : String := "stdin"

/-- What is run: a file, or text that was read from standard input. -/
inductive Script where
  | file (path : String)
  | input (source : String)
  deriving Repr, Inhabited

namespace Script

/-- The script's name as its first argument. -/
def name : Script → String
  | file path => path
  | input _ => standardInput

def operation (state : State) : Script → Operation Console
  | file path => .runFile state path
  | input source => .run state source (some inputName)

end Script

def options (configuration : Configuration) : Options Console where
  libraries := configuration.libraries
  packagePath := configuration.packagePath
  callbacks := { onLog := fun line _ console => (console.print line, none) }

/-- The global variable that holds the arguments. -/
def argumentsName : String := "arg"

/-- The entries of the table of arguments, counted from zero. -/
def argumentEntries (arguments : List String) : Encoders Console :=
  .ofList ((arguments.zipIdx).map fun (argument, i) =>
    (Client.encode (.int (Guest.floatOfNat i)), Client.encode (.string argument)))

/-- Closes the session before it throws. -/
def failing (state : State) (t : Thrown) : Client Console :=
  .perform (.close state) fun _ => .throw t

/-- Goes on with the state and the result of an operation. -/
def continuing (state : State) (k : State → Result → Client Console) : Outcome → Client Console
  | .ok (some next) result => k next result
  | .ok none result => k state result
  | .err f => failing state f.thrown
  | .threw t => failing state t

/-- Runs a script; its values are the values of the whole. -/
def execution (configuration : Configuration) (script : Script) (arguments : List String) :
    Client Console :=
  .perform (.init (options configuration)) (continuing default fun state _ =>
    .perform (.encodeTable state (argumentEntries (script.name :: arguments)))
      (continuing state fun state table =>
        match table with
        | .item item =>
          .perform (.set state [argumentsName] item) (continuing state fun state _ =>
            .perform (script.operation state) (continuing state fun state result =>
              .perform (.close state) fun _ =>
                match result with
                | .values values => .done state (values.map .value)
                | _ => .done state []))
        | _ => .done state []))

/-- What is written and returned at the end. -/
structure Ending where
  console : Console
  code : Nat
  deriving Inhabited

namespace Ending

def ofMessage (console : Console) (message : String) : Ending := ⟨console.complain message, 1⟩

/-- The end of a run: the message of the script or else its values, or the report of its failure. -/
def ofResult (console : Console) : Except Thrown (State × List Item) → Ending
  | .error t => ofMessage console (report t)
  | .ok (_, items) =>
    let values := items.map Item.datum
    let exit := Exit.ofValues values
    match exit.message with
    | some message => ⟨console.print message, exit.code⟩
    | none => ⟨if values.isEmpty then console else console.print (valuesLine values), exit.code⟩

end Ending

/-- The run of a script, where files are read from a directory. -/
def start (configuration : Configuration) (script : Script) (arguments : List String)
    (directory : Directory) : Config Console :=
  .start { directory, memory := {} } (execution configuration script arguments)

/-- What is shown on how to use the command. -/
def usage : String := "Usage:
  lua-bridge-exec <script.lua> [args...]  Execute a Lua script file
  lua-bridge-exec -                       Read script from stdin
  lua-bridge-exec --help                  Show this help message
  lua-bridge-exec --version               Show version information

Arguments:
  args are passed to the script in the global table arg (arg[0] is the script)

Exit status:
  true or no result exits 0, false or nil exits 1, an integer 0..255 is used
  as is; a string second result is printed

Examples:
  lua-bridge-exec script.lua
  lua-bridge-exec script.lua arg1 arg2
  echo \"print('hello')\" | lua-bridge-exec -"

def version : String := "0.1.0"

end LuaHost.CommandLine
