import LuaHost.CommandLine.Execution
/-!
A command from its arguments to its end. What a command needs to know of its surroundings, it asks for: the
outcome of reading a file, and the text of standard input.
-/

namespace LuaHost.CommandLine

/-- A command that waits for something, or has ended. -/
inductive Command where
  | ended (e : Ending)
  | reading (path : String) (k : ReadOutcome → Command)
  | readingInput (k : String → Command)
  /-- Runs a script, which may read more files. -/
  | executing (run : Directory → Config Console)

namespace Command

/-- Ends with lines of output. -/
def printing (line : String) : Command := .ended ⟨Console.print {} line, 0⟩

/-- Ends with a complaint. -/
def complaining (t : Thrown) : Command := .ended (.ofMessage {} (report t))

/-- Runs a script as it is configured. -/
def executingWith (script : String) (arguments : List String) (configuration : Configuration) : Command :=
  if script == standardInput then
    .readingInput fun source => .executing (start configuration (.input source) arguments)
  else .executing (start configuration (.file script) arguments)

/-- Runs a script as the configuration of the working directory says. -/
def execute (script : String) (arguments : List String) : Command :=
  let path := Configuration.pathIn "."
  .reading path fun outcome =>
    match Configuration.ofOutcome path outcome with
    | .error e => complaining e.thrown
    | .ok configuration => executingWith script arguments (configuration.getD {})

def ofArguments (arguments : List String) : Command :=
  match Request.ofArguments arguments with
  | .error e => complaining (.exception (.ofMessage .error e.message))
  | .ok .help => printing usage
  | .ok .version => printing version
  | .ok (.execute script arguments) => execute script arguments

/-- The end of a command whose surroundings are known, if it comes to one. -/
def ending? (files : Directory) (input : String) (fuel : Nat) : Command → Option Ending
  | ended e => some e
  | reading path k => (files.read? path).bind fun outcome => (k outcome).ending? files input fuel
  | readingInput k => (k input).ending? files input fuel
  | executing run =>
    let c := (run files).run fuel
    c.result?.map (Ending.ofResult c.world.memory)

end Command

end LuaHost.CommandLine
