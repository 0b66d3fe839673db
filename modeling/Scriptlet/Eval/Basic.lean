import Scriptlet.Eval.Machine
import Scriptlet.Eval.Operation

/-!
# Evaluation

Each expression takes one level of nesting, except that a binary operation which is the left operand
of another one shares the level of that one: a chain of operators is as deep as one of them. Operands
are evaluated from left to right, and a callee is resolved before its arguments.
-/

namespace Scriptlet.Eval

variable {σ : Type}

/-- What evaluation does not change: the native functions and the limits. -/
structure Setting (σ : Type) where
  registry : Registry σ
  limits : Limits

/-- What the left operand of an operator decides alone. -/
def shortcut (span : Option Span) (operator : String) (left : Value) : Eval σ (Option Value) :=
  match BinaryOperator.ofText? operator with
  | some op => settle span (Operation.shortcut op left)
  | none => pure none

/-- An operator on both operands. -/
def combine (span : Option Span) (operator : String) (left right : Value) : Eval σ Value :=
  match BinaryOperator.ofText? operator with
  | some op => settle span (Operation.binary op left right)
  | none => refuse (.operator operator)

/-! ## Expressions -/

mutual

/-- The value of an expression. A binary operation that is `chained` takes no level of its own. -/
def evaluate (s : Setting σ) (chained : Bool) : Node → Eval σ Value
  | .literal span v => nested s.limits span (pure v)
  | .name span n => nested s.limits span (readName span n)
  | .unary span op a =>
    nested s.limits span do
      let v ← evaluate s false a
      settle span (Operation.unary op v)
  | .binary span a op b =>
    let body : Eval σ Value := do
      let left ← evaluate s true a
      match ← shortcut span op left with
      | some v => pure v
      | none =>
        let right ← evaluate s false b
        combine span op left right
    if chained then body else nested s.limits span body
  | .tuple span es =>
    nested s.limits span do
      let vs ← evaluateAll s es
      return .tuple vs
  | .index span a b =>
    nested s.limits span do
      let object ← evaluate s false a
      let position ← evaluate s false b
      settle span (Operation.element object position)
  | .path span _ _ => nested s.limits span (fail span .invalidCallee)
  | .call span f es =>
    nested s.limits span do
      let n ← callee s.registry f
      let args ← evaluateAll s es
      invoke (.call span f es) n args
  | .binding span n a =>
    nested s.limits span (refuse (.expression (Node.binding span n a).kindName))
  | .expression span a =>
    nested s.limits span (refuse (.expression (Node.expression span a).kindName))
  | .block span es => nested s.limits span (refuse (.expression (Node.block span es).kindName))
  | .use span m f n => nested s.limits span (refuse (.expression (Node.use span m f n).kindName))
  | .program span es => nested s.limits span (refuse (.expression (Node.program span es).kindName))
  | .blank span b => nested s.limits span (refuse (.expression (Node.blank span b).kindName))

/-- The values of several expressions, from left to right. -/
def evaluateAll (s : Setting σ) : List Node → Eval σ (List Value)
  | [] => pure []
  | e :: es => do
    let v ← evaluate s false e
    let vs ← evaluateAll s es
    return v :: vs

end

/-! ## Statements -/

mutual

/-- Executes a statement. Only an expression or a block has a value of its own. -/
def execute (s : Setting σ) : Node → Eval σ Value
  | .expression _ e => evaluate s false e
  | .binding _ name e => do
    let v ← evaluate s false e
    bindName name (.value v)
    return .unit
  | .block span statements => nested s.limits span (inScope (executeAll s .unit statements))
  | .use span module symbol newName => do
    let n ← resolve s.registry span module symbol
    bindName (Node.boundName symbol newName) (.native n)
    return .unit
  | .literal span v => refuse (.statement (Node.literal span v).kindName)
  | .name span n => refuse (.statement (Node.name span n).kindName)
  | .unary span op a => refuse (.statement (Node.unary span op a).kindName)
  | .binary span a op b => refuse (.statement (Node.binary span a op b).kindName)
  | .tuple span es => refuse (.statement (Node.tuple span es).kindName)
  | .index span a b => refuse (.statement (Node.index span a b).kindName)
  | .path span m f => refuse (.statement (Node.path span m f).kindName)
  | .call span f es => refuse (.statement (Node.call span f es).kindName)
  | .program span es => refuse (.statement (Node.program span es).kindName)
  | .blank span b => refuse (.statement (Node.blank span b).kindName)

/-- Executes statements in order; the value of the last one counts, or `last` if there is none. -/
def executeAll (s : Setting σ) (last : Value) : List Node → Eval σ Value
  | [] => pure last
  | e :: es => do
    let v ← execute s e
    executeAll s v es

end

end Scriptlet.Eval
