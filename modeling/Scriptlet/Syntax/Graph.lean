import Scriptlet.Syntax.Node
import Scriptlet.Value.Printer

/-!
# Trees as graphs

`Node.graph` draws a tree as a directed graph with labelled, numbered nodes. Numbers follow the tree
from the root down, left to right; an edge is listed after all that is below its target. Each
argument of a call hangs below a node of its own that tells its position. `Node.drawWithin` draws the same
graph by calls that are nested as deep as the tree, on a host that has room for so many frames and no more.
-/

namespace Scriptlet

/-- A graph: the labels of its nodes, which are numbered from some start on, and its edges. -/
structure Graph where
  labels : List String
  edges : List (Nat × Nat)
  deriving DecidableEq, Inhabited, Repr

namespace Graph

/-- One character of a label. -/
def labelChar (c : Char) : List Char :=
  if c == '\\' then ['\\', '\\']
  else if c == '"' then ['\\', '"']
  else if c == '\n' then ['\\', 'n']
  else [c]

/-- A label between double quotes. -/
def label (text : String) : String :=
  String.ofList ('"' :: text.toList.flatMap labelChar ++ ['"'])

/-- The name of a numbered node. -/
def nodeName (id : Nat) : String := "n" ++ toString id

/-- The line of a node. -/
def nodeLine (id : Nat) (text : String) : String :=
  "  " ++ nodeName id ++ " [label=" ++ label text ++ "];"

/-- The lines of nodes that are numbered from `id` on. -/
def nodeLines (id : Nat) : List String → List String
  | [] => []
  | l :: ls => nodeLine id l :: nodeLines (id + 1) ls

/-- The line of an edge. -/
def edgeLine (e : Nat × Nat) : String := "  " ++ nodeName e.1 ++ " -> " ++ nodeName e.2 ++ ";"

/-- The name of the graph of a program. -/
def defaultName : String := "apex"

/-- The frames that the host of a command has for a drawing. -/
def hostFrames : Nat := 990

/-- A graph, numbered from zero, as text. -/
def text (name : String) (g : Graph) : String :=
  "\n".intercalate
    (("digraph " ++ name ++ " \x7b") :: "  node [shape=box];" ::
      nodeLines 0 g.labels ++ g.edges.map edgeLine ++ ["\x7d"]) ++ "\n"

end Graph

namespace Node

/-- The label of a node in a graph. -/
def graphLabel : Node → String
  | .literal _ v => "Literal: " ++ v.text
  | .name _ n => "Identifier: " ++ n
  | .unary _ op _ => "Unary: " ++ op
  | .binary _ _ op _ => "Binary: " ++ op
  | .tuple _ es => "Tuple (" ++ toString es.length ++ ")"
  | .index _ _ _ => "Index"
  | .path _ m f => "Path: " ++ pathText m f
  | .call _ _ _ => "Call"
  | .binding _ n _ => "let " ++ n
  | .expression _ _ => "expr"
  | .block _ _ => "block"
  | .use _ m f n =>
    "use " ++ pathText m f ++
      match n with
      | some newName => " as " ++ newName
      | none => ""
  | .program _ _ => "Program"
  | .blank s b => (Node.blank s b).kindName

/-- A graph with one more node on top. -/
def onTop (label : String) (below : Graph) : Graph := ⟨label :: below.labels, below.edges⟩

/-- Two graphs, the second numbered on from the first. -/
def besides (g h : Graph) : Graph := ⟨g.labels ++ h.labels, g.edges ++ h.edges⟩

/-- The graph below node `parent` of a child numbered `id`: the child's own graph, then the edge. -/
def hang (parent id : Nat) (child : Graph) : Graph :=
  ⟨child.labels, child.edges ++ [(parent, id)]⟩

mutual

/-- The graph of a tree whose root has number `id`. -/
def graphFrom (id : Nat) : Node → Graph
  | .unary s op a => onTop (graphLabel (.unary s op a)) (hang id (id + 1) (graphFrom (id + 1) a))
  | .binary s a op b =>
    let left := graphFrom (id + 1) a
    let next := id + 1 + left.labels.length
    onTop (graphLabel (.binary s a op b))
      (besides (hang id (id + 1) left) (hang id next (graphFrom next b)))
  | .tuple s es => onTop (graphLabel (.tuple s es)) (graphBelow id (id + 1) es)
  | .index s a b =>
    let object := graphFrom (id + 1) a
    let next := id + 1 + object.labels.length
    onTop (graphLabel (.index s a b))
      (besides (hang id (id + 1) object) (hang id next (graphFrom next b)))
  | .call s f es =>
    let callee := graphFrom (id + 1) f
    let next := id + 1 + callee.labels.length
    onTop (graphLabel (.call s f es))
      (besides (hang id (id + 1) callee) (graphArguments id next 1 es))
  | .binding s n a =>
    onTop (graphLabel (.binding s n a)) (hang id (id + 1) (graphFrom (id + 1) a))
  | .expression s a =>
    onTop (graphLabel (.expression s a)) (hang id (id + 1) (graphFrom (id + 1) a))
  | .block s es => onTop (graphLabel (.block s es)) (graphBelow id (id + 1) es)
  | .program s es => onTop (graphLabel (.program s es)) (graphBelow id (id + 1) es)
  | .literal s v => ⟨[graphLabel (.literal s v)], []⟩
  | .name s n => ⟨[graphLabel (.name s n)], []⟩
  | .path s m f => ⟨[graphLabel (.path s m f)], []⟩
  | .use s m f n => ⟨[graphLabel (.use s m f n)], []⟩
  | .blank s b => ⟨[graphLabel (.blank s b)], []⟩

/-- The graphs of the children of node `parent`, numbered from `id` on. -/
def graphBelow (parent id : Nat) : List Node → Graph
  | [] => ⟨[], []⟩
  | c :: cs =>
    let child := graphFrom id c
    besides (hang parent id child) (graphBelow parent (id + child.labels.length) cs)

/-- The graphs of the arguments of a call, the first of them in position `position`. -/
def graphArguments (call id position : Nat) : List Node → Graph
  | [] => ⟨[], []⟩
  | a :: rest =>
    let argument := graphFrom (id + 1) a
    let slot : Graph :=
      ⟨("arg #" ++ toString position) :: argument.labels,
       (call, id) :: argument.edges ++ [(id, id + 1)]⟩
    besides slot (graphArguments call (id + slot.labels.length) (position + 1) rest)

end

/-- The graph of a tree. -/
def graph (n : Node) : Graph := graphFrom 0 n

/-- The graph of a tree whose root shows nothing but its kind, with its children right below. -/
def plainGraph (n : Node) : Graph := onTop n.kindName (graphBelow 0 1 n.children)

/-! ## Room for a drawing -/

/-- The frames for one node alone: two to get to it, one to place it, and two for its line. -/
def lineFrames : Nat := 5

/-- One more node on top, if there is room for its line. -/
def placed (room : Nat) (label : String) (below : Option Graph) : Option Graph :=
  if room < lineFrames then none else below.map (onTop label)

mutual

/-- The graph of a tree whose root has number `id`, drawn with `room` frames. A node takes three of them from
its children, and a call takes two from its arguments. -/
def drawFrom (room id : Nat) : Node → Option Graph
  | .unary s op a =>
    placed room (graphLabel (.unary s op a))
      ((drawFrom (room - 3) (id + 1) a).map (hang id (id + 1)))
  | .binary s a op b =>
    placed room (graphLabel (.binary s a op b)) do
      let left ← drawFrom (room - 3) (id + 1) a
      let next := id + 1 + left.labels.length
      let right ← drawFrom (room - 3) next b
      return besides (hang id (id + 1) left) (hang id next right)
  | .tuple s es => placed room (graphLabel (.tuple s es)) (drawBelow (room - 3) id (id + 1) es)
  | .index s a b =>
    placed room (graphLabel (.index s a b)) do
      let object ← drawFrom (room - 3) (id + 1) a
      let next := id + 1 + object.labels.length
      let position ← drawFrom (room - 3) next b
      return besides (hang id (id + 1) object) (hang id next position)
  | .call s f es =>
    placed room (graphLabel (.call s f es)) do
      let callee ← drawFrom (room - 3) (id + 1) f
      let arguments ← drawArguments (room - 2) id (id + 1 + callee.labels.length) 1 es
      return besides (hang id (id + 1) callee) arguments
  | .binding s n a =>
    placed room (graphLabel (.binding s n a))
      ((drawFrom (room - 3) (id + 1) a).map (hang id (id + 1)))
  | .expression s a =>
    placed room (graphLabel (.expression s a))
      ((drawFrom (room - 3) (id + 1) a).map (hang id (id + 1)))
  | .block s es => placed room (graphLabel (.block s es)) (drawBelow (room - 3) id (id + 1) es)
  | .program s es => placed room (graphLabel (.program s es)) (drawBelow (room - 3) id (id + 1) es)
  | .literal s v =>
    if room < 2 + v.frames then none
    else placed room (graphLabel (.literal s v)) (some ⟨[], []⟩)
  | .name s n => placed room (graphLabel (.name s n)) (some ⟨[], []⟩)
  | .path s m f => placed room (graphLabel (.path s m f)) (some ⟨[], []⟩)
  | .use s m f n => placed room (graphLabel (.use s m f n)) (some ⟨[], []⟩)
  | .blank s b => placed room (graphLabel (.blank s b)) (some ⟨[], []⟩)

/-- The graphs of the children of node `parent`, numbered from `id` on. -/
def drawBelow (room parent id : Nat) : List Node → Option Graph
  | [] => some ⟨[], []⟩
  | c :: cs => do
    let child ← drawFrom room id c
    let rest ← drawBelow room parent (id + child.labels.length) cs
    return besides (hang parent id child) rest

/-- The graphs of the arguments of a call, the first of them in position `position`. -/
def drawArguments (room call id position : Nat) : List Node → Option Graph
  | [] => some ⟨[], []⟩
  | a :: rest => do
    let argument ← drawFrom room (id + 1) a
    let slot : Graph :=
      ⟨("arg #" ++ toString position) :: argument.labels,
       (call, id) :: argument.edges ++ [(id, id + 1)]⟩
    let others ← drawArguments room call (id + slot.labels.length) (position + 1) rest
    return besides slot others

end

/-- The graph of a tree, drawn with `room` frames. -/
def drawWithin (room : Nat) (n : Node) : Option Graph := drawFrom room 0 n

end Node

end Scriptlet
