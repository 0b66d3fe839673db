import Scriptlet.Syntax.Node
import Scriptlet.Value.Printer

/-!
# Trees as indented text

`Node.outline` lists a tree line by line: the kind of a node, then its fields one step further in.
-/

namespace Scriptlet.Node

/-- A line that is indented by `indent` steps. -/
def outlineLine (indent : Nat) (text : String) : String :=
  String.ofList (List.replicate (2 * indent) ' ') ++ text

/-- A field that is a text. -/
def textField (indent : Nat) (field text : String) : String :=
  outlineLine (indent + 1) (field ++ ": " ++ Text.quote text)

/-- The line that opens a field with nodes below it. -/
def openField (indent : Nat) (field : String) : String :=
  outlineLine (indent + 1) (field ++ ":")

/-- A field that is a list of nodes, given the lines of the nodes. -/
def listField (indent : Nat) (field : String) (lines : List String) : List String :=
  outlineLine (indent + 1) (field ++ ": [") :: lines ++ [outlineLine (indent + 1) "]"]

mutual

/-- The lines of a tree. -/
def outlineLines (indent : Nat) : Node → List String
  | .literal _ v =>
    [outlineLine indent "Literal", outlineLine (indent + 1) ("value: " ++ v.text)]
  | .name _ n => [outlineLine indent "Identifier", textField indent "name" n]
  | .unary _ op a =>
    outlineLine indent "UnaryOp" :: textField indent "operator" op ::
      openField indent "operand" :: outlineLines (indent + 2) a
  | .binary _ a op b =>
    outlineLine indent "BinaryOp" :: openField indent "left" :: outlineLines (indent + 2) a ++
      textField indent "operator" op :: openField indent "right" :: outlineLines (indent + 2) b
  | .tuple _ es =>
    outlineLine indent "TupleLiteral" ::
      listField indent "elements" (outlineAll (indent + 2) es)
  | .index _ a b =>
    outlineLine indent "IndexAccess" :: openField indent "object" ::
      outlineLines (indent + 2) a ++ openField indent "index" :: outlineLines (indent + 2) b
  | .path _ m f =>
    [outlineLine indent "QualifiedName", textField indent "module" m, textField indent "symbol" f]
  | .call _ f es =>
    outlineLine indent "Call" :: openField indent "callee" :: outlineLines (indent + 2) f ++
      listField indent "arguments" (outlineAll (indent + 2) es)
  | .binding _ n a =>
    outlineLine indent "Binding" :: textField indent "name" n ::
      openField indent "value" :: outlineLines (indent + 2) a
  | .expression _ a =>
    outlineLine indent "ExpressionStatement" ::
      openField indent "expression" :: outlineLines (indent + 2) a
  | .block _ es =>
    outlineLine indent "Block" :: listField indent "statements" (outlineAll (indent + 2) es)
  | .use _ m f n =>
    [outlineLine indent "UseStatement", textField indent "module" m, textField indent "symbol" f,
     match n with
     | some newName => textField indent "alias" newName
     | none => outlineLine (indent + 1) "alias: None"]
  | .program _ es =>
    outlineLine indent "Program" :: listField indent "statements" (outlineAll (indent + 2) es)
  | .blank s b => [outlineLine indent (Node.blank s b).kindName]

/-- The lines of several trees, one after another. -/
def outlineAll (indent : Nat) : List Node → List String
  | [] => []
  | n :: ns => outlineLines indent n ++ outlineAll indent ns

end

/-- A tree as indented text. -/
def outline (n : Node) : String := "\n".intercalate (outlineLines 0 n)

end Scriptlet.Node
