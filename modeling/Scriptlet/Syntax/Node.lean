import Scriptlet.Source.Position
import Scriptlet.Value.Basic

/-!
# Syntax trees

`Node` is the one type of syntax trees: expressions, statements and whole programs. Any node may
stand anywhere, since hosts build trees by hand; the trees that come from source text have more order
than the type asks for. A node knows the span it was read from, if it was read.
-/

namespace Scriptlet

/-- Nodes without content, which no source text gives. -/
inductive Blank where
  | node
  | expression
  | statement
  deriving DecidableEq, Inhabited, Repr

/-- A syntax tree. -/
inductive Node where
  | literal (span : Option Span) (value : Value)
  | name (span : Option Span) (name : String)
  | unary (span : Option Span) (operator : String) (operand : Node)
  | binary (span : Option Span) (left : Node) (operator : String) (right : Node)
  | tuple (span : Option Span) (elements : List Node)
  | index (span : Option Span) (object : Node) (index : Node)
  | path (span : Option Span) (module symbol : String)
  | call (span : Option Span) (callee : Node) (arguments : List Node)
  | binding (span : Option Span) (name : String) (value : Node)
  | expression (span : Option Span) (expression : Node)
  | block (span : Option Span) (statements : List Node)
  | use (span : Option Span) (module symbol : String) (newName : Option String)
  | program (span : Option Span) (statements : List Node)
  | blank (span : Option Span) (blank : Blank)
  deriving Inhabited

namespace Node

/-- Where a node was read from. -/
def span : Node → Option Span
  | .literal s _ | .name s _ | .unary s _ _ | .binary s _ _ _ | .tuple s _ | .index s _ _
  | .path s _ _ | .call s _ _ | .binding s _ _ | .expression s _ | .block s _ | .use s _ _ _
  | .program s _ | .blank s _ => s

/-- The name of a node's kind. -/
def kindName : Node → String
  | .literal _ _ => "Literal"
  | .name _ _ => "Identifier"
  | .unary _ _ _ => "UnaryOp"
  | .binary _ _ _ _ => "BinaryOp"
  | .tuple _ _ => "TupleLiteral"
  | .index _ _ _ => "IndexAccess"
  | .path _ _ _ => "QualifiedName"
  | .call _ _ _ => "Call"
  | .binding _ _ _ => "Binding"
  | .expression _ _ => "ExpressionStatement"
  | .block _ _ => "Block"
  | .use _ _ _ _ => "UseStatement"
  | .program _ _ => "Program"
  | .blank _ .node => "AstNode"
  | .blank _ .expression => "Expression"
  | .blank _ .statement => "Statement"

/-- The nodes right below a node, in source order. -/
def children : Node → List Node
  | .unary _ _ operand => [operand]
  | .binary _ left _ right => [left, right]
  | .tuple _ elements => elements
  | .index _ object position => [object, position]
  | .call _ callee arguments => callee :: arguments
  | .binding _ _ value => [value]
  | .expression _ e => [e]
  | .block _ statements => statements
  | .program _ statements => statements
  | .literal _ _ | .name _ _ | .path _ _ _ | .use _ _ _ _ | .blank _ _ => []

/-- The path of a native function. -/
def pathText (module symbol : String) : String := module ++ "::" ++ symbol

/-- The name that a `use` statement binds. -/
def boundName (symbol : String) (newName : Option String) : String := newName.getD symbol

mutual

/-- A node and all nodes below it with their depths, each node before the nodes below it. -/
def preorder (depth : Nat) : Node → List (Nat × Node)
  | .literal s v => [(depth, .literal s v)]
  | .name s n => [(depth, .name s n)]
  | .unary s op a => (depth, .unary s op a) :: preorder (depth + 1) a
  | .binary s a op b =>
    (depth, .binary s a op b) :: preorder (depth + 1) a ++ preorder (depth + 1) b
  | .tuple s es => (depth, .tuple s es) :: preorderAll (depth + 1) es
  | .index s a b => (depth, .index s a b) :: preorder (depth + 1) a ++ preorder (depth + 1) b
  | .path s m f => [(depth, .path s m f)]
  | .call s f es => (depth, .call s f es) :: preorder (depth + 1) f ++ preorderAll (depth + 1) es
  | .binding s n a => (depth, .binding s n a) :: preorder (depth + 1) a
  | .expression s a => (depth, .expression s a) :: preorder (depth + 1) a
  | .block s es => (depth, .block s es) :: preorderAll (depth + 1) es
  | .use s m f n => [(depth, .use s m f n)]
  | .program s es => (depth, .program s es) :: preorderAll (depth + 1) es
  | .blank s b => [(depth, .blank s b)]

/-- The listings of several nodes, one after another. -/
def preorderAll (depth : Nat) : List Node → List (Nat × Node)
  | [] => []
  | n :: ns => preorder depth n ++ preorderAll depth ns

end

end Node

/-- A whole program. -/
structure Program where
  span : Option Span
  statements : List Node
  deriving Inhabited

namespace Program

/-- A program as a tree. -/
def node (p : Program) : Node := .program p.span p.statements

end Program

end Scriptlet
