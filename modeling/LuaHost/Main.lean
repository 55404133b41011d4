import LuaHost.CommandLine.Command
/-!
The command line. What a command asks for is read when it asks, and lines are printed as they come.
-/

namespace LuaHost.CommandLine

/-- The number by which the system tells that a directory was read as a file. -/
def directoryErrorNumber : UInt32 := 21

/-- Reads a file below the working directory. -/
def readOutcome (path : String) : IO ReadOutcome := do
  match ← (IO.FS.readBinFile path).toBaseIO with
  | .ok content => return .ok content
  | .error (.noFileOrDirectory ..) => return .error .missing
  | .error (.inappropriateType _ number _) =>
    return .error (if number == directoryErrorNumber then .isDirectory else .notDirectory)
  | .error e => throw e

/-- Bytes that are read at a time. -/
def blockSize : USize := 65536

/-- Reads a stream to its end. -/
partial def readToEnd (stream : IO.FS.Stream) (done : ByteArray) : IO ByteArray := do
  let block ← stream.read blockSize
  if block.isEmpty then return done else readToEnd stream (done ++ block)

/-- Prints what has been written so far. -/
def flush (console : Console) : IO Unit := do
  console.output.reverse.forM IO.println
  console.errors.reverse.forM IO.eprintln

/-- Steps that a run makes at a time. -/
def steps : Nat := 100

/-- Runs a script to its end. -/
partial def follow (run : Config Console) : IO Ending := do
  let run := run.run steps
  flush run.world.memory
  let run := { run with world.memory := {} }
  match run.result?, run.lacking? with
  | some result, _ => return .ofResult {} result
  | none, some path =>
    let outcome ← readOutcome path
    follow { run with world.directory := run.world.directory.learn path outcome }
  | none, none => follow run

/-- Carries a command out. -/
partial def Command.carryOut : Command → IO Ending
  | ended e => return e
  | reading path k => do (k (← readOutcome path)).carryOut
  | readingInput k => do
    let input ← readToEnd (← IO.getStdin) ByteArray.empty
    (k (Text.ofBytes input)).carryOut
  | executing run => follow (run .unknown)

end LuaHost.CommandLine

open LuaHost.CommandLine in
def main (arguments : List String) : IO UInt32 := do
  let ending ← (Command.ofArguments arguments).carryOut
  flush ending.console
  return UInt32.ofNat ending.code
