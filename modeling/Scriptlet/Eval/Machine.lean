import Scriptlet.Eval.Environment
import Scriptlet.Native.Registry

/-!
# The state of an evaluation

Evaluation is a computation that may stop early and whose effects stay when it does: bindings, the
state of the native functions, the number of open levels and the trace of what happened.
-/

namespace Scriptlet

/-- A tree that no source text writes, found where it has no meaning. -/
inductive Malformed where
  | statement (kind : String)
  | expression (kind : String)
  | operator (operator : String)
  deriving DecidableEq, Inhabited, Repr

/-- The message for a tree without meaning. -/
def Malformed.message : Malformed → String
  | .statement kind => "Unknown statement type: " ++ kind
  | .expression kind => "Unknown expression type: " ++ kind
  | .operator text => "Unknown binary operator: " ++ text

/-- Why an evaluation stopped: a failure, the level that was one too many, a host that can go no
deeper, a tree without meaning, or an exception of the host that is no failure. -/
inductive Stop where
  | failure (f : Failure)
  | tooDeep (span : Option Span)
  | exhausted
  | malformed (m : Malformed)
  | exception (kind : String)
  deriving DecidableEq, Inhabited

/-- The stop for an answer that gives no value. -/
def Stop.ofTrouble : Native.Trouble → Stop
  | .failure f => .failure f
  | .exception kind => .exception kind

/-- Something that happens during a run. -/
inductive Event (σ : Type) where
  | started (statements : Nat)
  | finished (v : Value)
  | scopeEntered (depth : Nat)
  | scopeLeft (depth : Nat)
  | invoked (call : Node) (native : Native σ) (args : List Value)
  | escaped (native : Native σ) (kind text : String)

/-- How deep evaluation may go: the limit that was set, and the limit of the host. -/
structure Limits where
  maxDepth : Nat
  stackDepth : Nat := 1000
  deriving DecidableEq, Inhabited, Repr

/-- The state of an evaluation. -/
structure Machine (σ : Type) where
  env : Environment σ
  natives : σ
  depth : Nat
  lines : List String
  trace : List (Event σ)

/-- A computation on the state. -/
abbrev Eval (σ α : Type) := EStateM Stop (Machine σ) α

namespace Machine

variable {σ : Type}

/-- Adds an event to the trace. -/
def record (m : Machine σ) (e : Event σ) : Machine σ := { m with trace := m.trace ++ [e] }

/-- Adds the answer of a native function to the trace, if it let an exception escape. -/
def recordAnswer (m : Machine σ) (n : Native σ) : Native.Answer → Machine σ
  | .escaped kind text => m.record (.escaped n kind text)
  | _ => m

/-- Opens a scope. -/
def enterScope (m : Machine σ) : Machine σ :=
  { m with env := m.env.push }.record (.scopeEntered m.env.push.depth)

/-- Closes the innermost scope. -/
def leaveScope (m : Machine σ) : Machine σ :=
  { m with env := m.env.pop }.record (.scopeLeft m.env.pop.depth)

/-- Goes one level down. -/
def descend (m : Machine σ) : Machine σ := { m with depth := m.depth + 1 }

/-- Goes one level up. -/
def ascend (m : Machine σ) : Machine σ := { m with depth := m.depth - 1 }

end Machine

namespace Eval

variable {σ α : Type}

/-- Fails at a place of the program. -/
def fail (span : Option Span) (cause : Cause) : Eval σ α := fun m =>
  .error (.failure (.atSpan m.lines span cause)) m

/-- Stops at a tree without meaning. -/
def refuse (m : Malformed) : Eval σ α := throw (.malformed m)

/-- The result of an operation at a place of the program. -/
def settle (span : Option Span) : Except Cause α → Eval σ α
  | .ok a => pure a
  | .error cause => fail span cause

/-- Runs a computation and then changes the state, whether or not it stopped. -/
def andThen (body : Eval σ α) (after : Machine σ → Machine σ) : Eval σ α := fun m =>
  match body m with
  | .ok a m' => .ok a (after m')
  | .error stop m' => .error stop (after m')

/-- Runs a computation one level down, if there may be such a level. -/
def nested (limits : Limits) (span : Option Span) (body : Eval σ α) : Eval σ α := fun m =>
  if limits.maxDepth < m.depth + 1 then .error (.tooDeep span) m.descend
  else if limits.stackDepth < m.depth + 1 then .error .exhausted m.descend
  else andThen body Machine.ascend m.descend

/-- Runs a computation in a scope of its own. -/
def inScope (body : Eval σ α) : Eval σ α := fun m => andThen body Machine.leaveScope m.enterScope

/-- Binds a name in the innermost scope. -/
def bindName (name : String) (b : Binding σ) : Eval σ Unit :=
  modify fun m => { m with env := m.env.bind name b }

/-- The value of a name. -/
def readName (span : Option Span) (name : String) : Eval σ Value := do
  match (← get).env.lookup name with
  | none => fail span (.undefinedName name)
  | some (.native n) => fail span (.notAValue name n.name)
  | some (.value v) => pure v

/-- The native function at a path. -/
def resolve (registry : Registry σ) (span : Option Span) (module symbol : String) :
    Eval σ (Native σ) :=
  match registry.get? module with
  | none => fail span (.unknownModule module symbol)
  | some table =>
    match table.get? symbol with
    | none => fail span (.unknownSymbol module symbol)
    | some n => pure n

/-- The native function that a callee stands for. -/
def callee (registry : Registry σ) : Node → Eval σ (Native σ)
  | .path span module symbol => resolve registry span module symbol
  | .name span name => do
    match (← get).env.lookup name with
    | none => fail span (.undefinedName name)
    | some (.value v) => fail span (.notCallable name v.kind)
    | some (.native n) => pure n
  | other => fail other.span .invalidCallee

/-- Calls a native function for a call of the program. -/
def invoke (call : Node) (n : Native σ) (args : List Value) : Eval σ Value := fun m =>
  let (answer, natives) := n.run args m.natives
  let m' := ({ m with natives }.record (.invoked call n args)).recordAnswer n answer
  match answer.settle n.name with
  | .ok v => .ok v m'
  | .error trouble => .error (.ofTrouble trouble) m'

end Eval

end Scriptlet
