import Scriptlet.Command.Basic

/-!
# The command line tool

Looks up what a command needs to know about the system, runs it, and writes what it leaves behind.
-/

namespace Scriptlet.Tool

/-- The bytes of a file, if it can be read. -/
def readBytes (path : String) : IO (Option ByteArray) := do
  try
    return some (← IO.FS.readBinFile path)
  catch _ =>
    return none

/-- The text of a file, if it can be read and is one. -/
def readText (path : String) : IO (Option String) := do
  return (← readBytes path).bind String.fromUTF8?

/-- The variables of the environment. -/
def environment : IO (Assoc String) := do
  let listed := (← readText "/proc/self/environ").getD ""
  let entries := (listed.splitOn "\x00").filterMap fun entry =>
    match entry.splitOn "=" with
    | name :: first :: more => some (name, "=".intercalate (first :: more))
    | _ => none
  return .ofList entries

/-- The number of the process. -/
def processNumber : IO Nat := do
  let listed := (← readText "/proc/self/stat").getD ""
  return Decimal.read (listed.toList.takeWhile Text.isDecimal)

/-- The directory in which the tool runs. -/
def workingDir : IO (Except String String) := do
  try
    return .ok (← IO.currentDir).toString
  catch e =>
    return .error e.toString

/-- The files at some paths. -/
def readFiles (paths : List String) : IO Files := do
  let found ← paths.filterMapM fun path => do
    match ← readBytes (PathText.tidy path) with
    | none => return none
    | some bytes =>
      match String.fromUTF8? bytes with
      | some s => return some (path, FileContent.text s)
      | none => return some (path, FileContent.undecodable)
  return fun path => found.lookup path

/-- How the tool is used. -/
def usageText : String :=
  "usage: apexlang [-h] [--config PATH] [-v] \x7brun,eval,tokens,ast,dot,modules\x7d ...\n"

/-- Writes what a command leaves behind, and gives the exit status. -/
def finish : Command.Ending → IO UInt32
  | .finished o => do
    (← IO.getStderr).putStr o.err
    (← IO.getStdout).putStr o.out
    return o.status.toUInt32
  | .usage .help => do
    (← IO.getStdout).putStr usageText
    return 0
  | .usage .misuse => do
    (← IO.getStderr).putStr usageText
    return 2
  | .undecodable => do
    (← IO.getStderr).putStr "Error: a file is not UTF-8 text\n"
    return 1
  | .broken _ => do
    (← IO.getStderr).putStr "Error: the settings cannot be compared or shown\n"
    return 1
  | .raised kind => do
    (← IO.getStderr).putStr (kind ++ "\n")
    return 1

end Scriptlet.Tool

open Scriptlet in
/-- Runs a command line. -/
def main (args : List String) : IO UInt32 := do
  let env ← Tool.environment
  let host : Host :=
    { env, argv := "apex" :: args, tempDir := (env.get? "TMPDIR").getD "/tmp",
      workingDir := ← Tool.workingDir, pid := ← Tool.processNumber }
  let files ← Tool.readFiles (Command.paths env args)
  Tool.finish (Command.run { files, host } args)
