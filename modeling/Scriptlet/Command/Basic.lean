import Scriptlet.Command.Arguments
import Scriptlet.Command.Log
import Scriptlet.Config.File
import Scriptlet.Eval.Interpreter
import Scriptlet.Syntax.Graph
import Scriptlet.Syntax.Outline
import Scriptlet.Yaml.Document

/-!
# Commands

What a command line does, as a function of its arguments, the files, the host and the reader of documents.
Failures of programs, missing files and settings that cannot be used are told on the error output and give
the exit status one.
-/

namespace Scriptlet.Command

/-- What a command leaves behind. -/
structure Output where
  status : Nat
  out : String
  err : String
  deriving DecidableEq, Inhabited, Repr

/-- How a command ends: with output, with the text on usage, or because a file is no text. Settings
can also fail to be compared or shown, and then the command breaks off. An exception of the class `kind`
that is no failure ends it too. -/
inductive Ending where
  | finished (o : Output)
  | usage (u : Usage)
  | undecodable
  | broken (o : Config.Obstacle)
  | raised (kind : String)
  deriving DecidableEq, Inhabited, Repr

/-- The surroundings of a command. -/
structure World where
  files : Files
  host : Host
  reader : Yaml.Reader := Yaml.read

/-- A command that went well. -/
def success (out err : String) : Ending := .finished ⟨0, out, err⟩

/-- A command that did not go well. -/
def trouble (err : String) : Ending := .finished ⟨1, "", err⟩

/-- The ending for a failure of a program, after what was logged. -/
def failed (name : String) (log : String) (f : Failure) : Ending :=
  trouble (log ++ f.text (some name) ++ "\n")

/-- Does something with the text of a file, whose line breaks become single line feeds. -/
def withFile (w : World) (path : String) (use : String → Ending) : Ending :=
  match w.files path with
  | none => trouble ("Error: File not found: " ++ PathText.tidy path ++ "\n")
  | some .undecodable => .undecodable
  | some (.text s) => use (String.ofList (Text.unixBreaks s.toList))

/-- The line of a token in a listing. -/
def tokenLine (t : Token) : String :=
  t.span.start.text none ++ "\t" ++ t.kind.name ++ "\t" ++ Text.quote t.lexeme ++ "\n"

/-- Lists the tokens of a text. -/
def listTokens (name source : String) : Ending :=
  match Token.ofSource source with
  | .error f => failed name "" f
  | .ok tokens => success (String.join (tokens.map tokenLine)) ""

/-- Shows the tree of a text, unless the host has no room to walk it. -/
def showTree (render : Node → Option String) (name source : String) : Ending :=
  match Program.ofSource source with
  | .error f => failed name "" f
  | .ok p =>
    match render p.node with
    | some text => success text ""
    | none => .raised "RecursionError"

/-- The registry of a command. -/
def registryOf (w : World) (c : Config) : Registry SignalTable := c.registry w.host (.whole _)

/-- Runs a program and prints its value. -/
def evaluate (w : World) (c : Config) (level : LogLevel) (name source : String) : Ending :=
  match Program.ofSource source with
  | .error f => failed name "" f
  | .ok p =>
    let registry := registryOf w c
    let i : Interpreter SignalTable := { registry, limits := { maxDepth := c.maxDepth } }
    let o := i.runProgram p (some source) {}
    let log := Log.text level (Log.installed c.modules registry ++ o.trace.map Log.event)
    match o.value p.span with
    | .ok v => success (v.text ++ "\n") log
    | .error (.failure f) => failed name log f
    | .error (.malformed m) => trouble (log ++ m.message ++ "\n")
    | .error (.exception kind) => .raised kind

/-- Lists the native functions. -/
def listModules (w : World) (c : Config) (level : LogLevel) : Ending :=
  let registry := registryOf w c
  success (String.join (registry.symbols.map (· ++ "\n")))
    (Log.text level (Log.installed c.modules registry))

/-- Does an action. -/
def perform (w : World) (c : Config) (level : LogLevel) : Action → Ending
  | .run file => withFile w file (evaluate w c level file)
  | .eval source => evaluate w c level "<eval>" source
  | .tokens file => withFile w file (listTokens file)
  | .ast file => withFile w file (showTree (fun n => some (n.outline ++ "\n")) file)
  | .dot file =>
    withFile w file
      (showTree (fun n => (n.drawWithin Graph.hostFrames).map (Graph.text Graph.defaultName)) file)
  | .modules => listModules w c level

/-- The settings of a command: an empty name of a file counts as none. -/
def settings (w : World) (config : Option String) : Except Config.Obstacle Config :=
  match config with
  | some path =>
    if path = "" then Config.ofEnvironment w.reader w.files w.host.env
    else Config.load w.reader w.files path
  | none => Config.ofEnvironment w.reader w.files w.host.env

/-- The files that a command line may read. -/
def paths (env : Assoc String) (args : List String) : List String :=
  match ofArguments args with
  | .error _ => []
  | .ok invocation =>
    let config := (invocation.config.filter (· ≠ "")).orElse fun _ => env.get? Config.variableName
    let source :=
      match invocation.action with
      | .run file | .tokens file | .ast file | .dot file => [file]
      | .eval _ | .modules => []
    config.toList ++ source

/-- What a command line does. -/
def run (w : World) (args : List String) : Ending :=
  match ofArguments args with
  | .error u => .usage u
  | .ok invocation =>
    match settings w invocation.config with
    | .error (.problem p) => trouble ("Error: " ++ p.message ++ "\n")
    | .error .undecodable => .undecodable
    | .error o => .broken o
    | .ok c => perform w c (if invocation.verbose then .debug else c.logLevel) invocation.action

end Scriptlet.Command
