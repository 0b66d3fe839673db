import Scriptlet.Eval.Basic
import Scriptlet.Syntax.Program

/-!
# Interpreters

An interpreter runs programs and expressions over a registry, within limits. It keeps the number of
open levels and the lines that failures quote; both are set anew by each run, so an interpreter can be
used again after any outcome.
-/

namespace Scriptlet

/-- What runs programs. -/
structure Interpreter (σ : Type) where
  registry : Registry σ
  limits : Limits
  depth : Nat := 0
  lines : List String := []

/-- Why a run gave no value. -/
inductive RunError where
  | failure (f : Failure)
  | malformed (m : Malformed)
  | exception (kind : String)
  deriving DecidableEq, Inhabited

/-- The error of a run over a tree at `span`. A host that can go no deeper is told at the span of the
whole tree, without a source line. -/
def Stop.error (limits : Limits) (lines : List String) (span : Option Span) : Stop → RunError
  | .failure f => .failure f
  | .tooDeep place => .failure (.atSpan lines place (.depthExceeded limits.maxDepth))
  | .exhausted => .failure ⟨.depthExceeded limits.maxDepth, span, none⟩
  | .malformed m => .malformed m
  | .exception kind => .exception kind

/-- All that a run leaves behind. -/
structure Outcome (σ : Type) where
  result : Except Stop Value
  interpreter : Interpreter σ
  env : Environment σ
  natives : σ
  trace : List (Event σ)

namespace Interpreter

variable {σ : Type}

/-- The lines of an optional source text. -/
def sourceLines (source : Option String) : List String := (source.map Text.lines).getD []

/-- The state before a run. -/
def start (source : Option String) (env : Environment σ) (natives : σ) (trace : List (Event σ)) :
    Machine σ :=
  { env, natives, depth := 0, lines := sourceLines source, trace }

/-- The outcome of a run that ended in a state. -/
def outcome (i : Interpreter σ) (result : Except Stop Value) (m : Machine σ) : Outcome σ :=
  { result, interpreter := { i with depth := m.depth, lines := m.lines }, env := m.env,
    natives := m.natives, trace := m.trace }

/-- What evaluation does not change. -/
def setting (i : Interpreter σ) : Eval.Setting σ := ⟨i.registry, i.limits⟩

/-- Runs a program in a new environment. -/
def runProgram (i : Interpreter σ) (p : Program) (source : Option String) (natives : σ) :
    Outcome σ :=
  match Eval.executeAll i.setting .unit p.statements
      (start source {} natives [.started p.statements.length]) with
  | .ok v m => i.outcome (.ok v) (m.record (.finished v))
  | .error stop m => i.outcome (.error stop) m

/-- Evaluates an expression in a given environment. -/
def runExpression (i : Interpreter σ) (e : Node) (env : Environment σ) (source : Option String)
    (natives : σ) : Outcome σ :=
  match Eval.evaluate i.setting false e (start source env natives []) with
  | .ok v m => i.outcome (.ok v) m
  | .error stop m => i.outcome (.error stop) m

end Interpreter

namespace Outcome

variable {σ : Type}

/-- The value or error of a run over a tree at `span`. -/
def value (o : Outcome σ) (span : Option Span) : Except RunError Value :=
  match o.result with
  | .ok v => .ok v
  | .error stop => .error (stop.error o.interpreter.limits o.interpreter.lines span)

end Outcome

/-- Reads and runs a source text; the state of the native functions is left as it is if the text is no
program. Reading may go as deep as the host can evaluate. -/
def runSource {σ : Type} (i : Interpreter σ) (source : String) (natives : σ) :
    Except RunError Value × σ :=
  match Program.ofSourceWithin i.limits.stackDepth source with
  | .error f => (.error (.failure f), natives)
  | .ok p =>
    let o := i.runProgram p (some source) natives
    (o.value p.span, o.natives)

end Scriptlet
