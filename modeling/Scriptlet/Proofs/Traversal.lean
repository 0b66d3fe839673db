import Mathlib.Tactic.Common
import Scriptlet.Syntax.Node
import Scriptlet.Syntax.Operator

/-!
# What is in a tree

The nodes of a tree in the order in which an evaluation is done with them, and what can be read off this
listing.

* `Node.postorder`: the nodes of a tree, each after the nodes below it.
* `Node.calls`: the calls of a tree; `Node.Plain`: a tree without logical operations.
* `Node.paths`: the paths of native functions that a tree names.
-/

namespace Scriptlet.Node

mutual

/-- A node and all nodes below it, each node after the nodes below it. -/
def postorder : Node → List Node
  | .literal s v => [.literal s v]
  | .name s n => [.name s n]
  | .unary s op a => postorder a ++ [.unary s op a]
  | .binary s a op b => postorder a ++ postorder b ++ [.binary s a op b]
  | .tuple s es => postorderAll es ++ [.tuple s es]
  | .index s a b => postorder a ++ postorder b ++ [.index s a b]
  | .path s m f => [.path s m f]
  | .call s f es => postorder f ++ postorderAll es ++ [.call s f es]
  | .binding s n a => postorder a ++ [.binding s n a]
  | .expression s a => postorder a ++ [.expression s a]
  | .block s es => postorderAll es ++ [.block s es]
  | .use s m f n => [.use s m f n]
  | .program s es => postorderAll es ++ [.program s es]
  | .blank s b => [.blank s b]

/-- The listings of several nodes, one after another. -/
def postorderAll : List Node → List Node
  | [] => []
  | n :: ns => postorder n ++ postorderAll ns

end

theorem postorderAll_eq (ns : List Node) : postorderAll ns = ns.flatMap postorder := by
  induction ns with
  | nil => rw [postorderAll, List.flatMap_nil]
  | cons n ns ih => rw [postorderAll, ih, List.flatMap_cons]

/-- The listing of a node goes through its children and ends with the node. -/
theorem postorder_eq (n : Node) : n.postorder = n.children.flatMap postorder ++ [n] := by
  cases n <;> simp [postorder, children, postorderAll_eq]

theorem mem_postorder_self (n : Node) : n ∈ n.postorder := by
  rw [postorder_eq]
  exact List.mem_append_right _ (List.mem_singleton.2 rfl)

theorem mem_postorder_of_child {n c e : Node} (hc : c ∈ n.children) (h : e ∈ c.postorder) :
    e ∈ n.postorder := by
  rw [postorder_eq]
  exact List.mem_append_left _ (List.mem_flatMap.2 ⟨c, hc, h⟩)

/-! ## Calls -/

/-- Is the node a call? -/
def isCall : Node → Bool
  | .call _ _ _ => true
  | _ => false

/-- The calls of a tree, each after the calls below it. -/
def calls (n : Node) : List Node := n.postorder.filter isCall

theorem calls_eq (n : Node) : n.calls = n.children.flatMap calls ++ [n].filter isCall := by
  unfold calls
  rw [postorder_eq, List.filter_append, List.filter_flatMap]

theorem calls_of_not_call {n : Node} (h : n.isCall = false) :
    n.calls = n.children.flatMap calls := by
  rw [calls_eq, List.filter_cons_of_neg (by rw [h]; exact Bool.false_ne_true), List.filter_nil,
    List.append_nil]

theorem calls_call (span : Option Span) (f : Node) (es : List Node) :
    (call span f es).calls = f.calls ++ (es.flatMap calls ++ [call span f es]) := by
  rw [calls_eq, children, List.flatMap_cons, List.append_assoc]
  rfl

/-! ## Logical operations -/

/-- Is the node a logical operation, which may leave out its right operand? -/
def isLogical : Node → Bool
  | .binary _ _ op _ => op == BinaryOperator.and.text || op == BinaryOperator.or.text
  | _ => false

/-- A tree without logical operations. -/
def Plain (n : Node) : Prop := ∀ e ∈ n.postorder, e.isLogical = false

theorem Plain.child {n c : Node} (h : n.Plain) (hc : c ∈ n.children) : c.Plain :=
  fun e he => h e (mem_postorder_of_child hc he)

theorem Plain.self {n : Node} (h : n.Plain) : n.isLogical = false := h n n.mem_postorder_self

/-! ## Paths -/

/-- The path that a node names, as the callee of a call or as the target of a `use`. -/
def path? : Node → Option (String × String)
  | .call _ (.path _ module symbol) _ => some (module, symbol)
  | .use _ module symbol _ => some (module, symbol)
  | _ => none

/-- The paths that a tree names. -/
def paths (n : Node) : List (String × String) := n.postorder.filterMap path?

/-- All paths that a tree names are in `named`. -/
def Names (named : String × String → Prop) (n : Node) : Prop := ∀ path ∈ n.paths, named path

theorem Names.child {named : String × String → Prop} {n c : Node} (h : n.Names named)
    (hc : c ∈ n.children) : c.Names named := by
  intro path hpath
  obtain ⟨e, he, hpath⟩ := List.mem_filterMap.1 hpath
  exact h path (List.mem_filterMap.2 ⟨e, mem_postorder_of_child hc he, hpath⟩)

theorem Names.self {named : String × String → Prop} {n : Node} (h : n.Names named)
    {path : String × String} (hpath : n.path? = some path) : named path :=
  h path (List.mem_filterMap.2 ⟨n, n.mem_postorder_self, hpath⟩)

end Scriptlet.Node
