import Scriptlet.Config.Basic
import Scriptlet.Eval.Machine
import Scriptlet.Text.Quoted
import Scriptlet.Value.Printer

/-!
# Logs

What is logged about the registry and about a run. A log shows the records that are at least as
severe as its level.
-/

namespace Scriptlet.Log

/-- Something that is logged: how severe it is, which part of the program says it, and what. -/
structure Record where
  level : LogLevel
  source : String
  message : String
  deriving DecidableEq, Inhabited, Repr

/-- The line of a record. -/
def Record.line (r : Record) : String :=
  r.level.name ++ " apexlang." ++ r.source ++ ": " ++ r.message ++ "\n"

/-- The lines of a log of the given level. -/
def text (level : LogLevel) (records : List Record) : String :=
  String.join ((records.filter (level.severity ≤ ·.level.severity)).map Record.line)

/-- The record of a registered module. -/
def registered {σ : Type} (module : String × NativeModule σ) : Record :=
  ⟨.debug, "runtime.natives",
    "registered native module " ++ Text.quote module.1 ++ " (" ++ toString module.2.length ++
      " symbols)"⟩

/-- The records of a registry of the chosen standard modules. -/
def installed {σ : Type} (chosen : List String) (r : Registry σ) : List Record :=
  r.map registered ++
    [⟨.debug, "stdlib", "standard library installed: " ++ ", ".intercalate chosen⟩]

/-- The record of something that happened during a run. -/
def event {σ : Type} : Event σ → Record
  | .started n =>
    ⟨.debug, "runtime.interpreter", "evaluating program with " ++ toString n ++ " statement(s)"⟩
  | .finished v => ⟨.debug, "runtime.interpreter", "program finished with " ++ v.text⟩
  | .scopeEntered depth =>
    ⟨.debug, "runtime.context", "push scope (depth " ++ toString depth ++ ")"⟩
  | .scopeLeft depth => ⟨.debug, "runtime.context", "pop scope (depth " ++ toString depth ++ ")"⟩
  | .invoked _ function args =>
    ⟨.debug, "runtime.natives",
      "invoke " ++ function.name ++ " with " ++ toString args.length ++ " argument(s)"⟩
  | .escaped function kind text =>
    ⟨.warning, "runtime.natives",
      "native function " ++ function.name ++ " raised " ++ kind ++ ": " ++ text⟩

end Scriptlet.Log
