import Mathlib.Tactic.Common
import Scriptlet.Syntax.Graph

/-!
# What a graph draws

A `Sketch` is a tree of labels and no more. The graph of a syntax tree draws one sketch, `Node.sketch`,
and a sketch can be told from its drawing: the labels stand in the order in which the tree is walked,
and as many edges leave a node as it has children, so labels and edges together are the tree in prefix
notation.

* `Graph.Draws g id t`: the graph `g`, numbered from `id` on, draws the sketch `t`.
* `Node.draws_graphFrom`: what the graph of a syntax tree draws.
* `Sketch.eq_of_edges`: a drawing draws no other sketch.
-/

namespace Scriptlet

/-- A tree of labels. -/
inductive Sketch where
  | node (label : String) (children : List Sketch)

namespace Sketch

/-! ## Prefix notation -/

mutual

/-- The labels of a tree with the number of children of each, from the root down and left to right. -/
@[simp] def entries : Sketch → List (String × Nat)
  | .node label cs => (label, cs.length) :: entriesAll cs

/-- The labels of several trees, one tree after another. -/
@[simp] def entriesAll : List Sketch → List (String × Nat)
  | [] => []
  | c :: cs => entries c ++ entriesAll cs

end

mutual

/-- Prefix notation needs no brackets. -/
theorem entries_append_inj : ∀ (t t' : Sketch) {rest rest' : List (String × Nat)},
    t.entries ++ rest = t'.entries ++ rest' → t = t' ∧ rest = rest'
  | .node label cs, .node label' cs', rest, rest', h => by
    rw [entries, entries, List.cons_append, List.cons_append, List.cons.injEq, Prod.mk.injEq] at h
    obtain ⟨⟨rfl, hlength⟩, h⟩ := h
    obtain ⟨rfl, hrest⟩ := entriesAll_append_inj cs cs' hlength h
    exact ⟨rfl, hrest⟩

theorem entriesAll_append_inj : ∀ (cs cs' : List Sketch) {rest rest' : List (String × Nat)},
    cs.length = cs'.length → entriesAll cs ++ rest = entriesAll cs' ++ rest' →
      cs = cs' ∧ rest = rest'
  | [], [], _, _, _, h => ⟨rfl, h⟩
  | c :: cs, c' :: cs', rest, rest', hlength, h => by
    rw [entriesAll, entriesAll, List.append_assoc, List.append_assoc] at h
    obtain ⟨rfl, hcs⟩ := entries_append_inj c c' h
    obtain ⟨rfl, hrest⟩ := entriesAll_append_inj cs cs' (Nat.succ.inj hlength) hcs
    exact ⟨rfl, hrest⟩

end

/-! ## Edges -/

mutual

/-- The edges of a tree whose root has number `id`. -/
@[simp] def edges (id : Nat) : Sketch → List (Nat × Nat)
  | .node _ cs => edgesBelow id (id + 1) cs

/-- The edges of the children of node `parent`, numbered from `id` on. -/
@[simp] def edgesBelow (parent id : Nat) : List Sketch → List (Nat × Nat)
  | [] => []
  | c :: cs =>
    (parent, id) :: (edges id c ++ edgesBelow parent (id + c.entries.length) cs)

end

/-- Each number from `id` on as often as its entry has children. -/
@[simp] def sources (id : Nat) : List (String × Nat) → List Nat
  | [] => []
  | e :: es => List.replicate e.2 id ++ sources (id + 1) es

theorem sources_append (id : Nat) (es es' : List (String × Nat)) :
    sources id (es ++ es') = sources id es ++ sources (id + es.length) es' := by
  induction es generalizing id with
  | nil => rfl
  | cons e es ih =>
    rw [List.cons_append, sources, sources, ih, List.append_assoc, List.length_cons,
      Nat.add_right_comm, Nat.add_assoc]

theorem le_of_mem_sources {id i : Nat} {es : List (String × Nat)} (h : i ∈ sources id es) :
    id ≤ i := by
  induction es generalizing id with
  | nil => cases h
  | cons e es ih =>
    rcases List.mem_append.1 h with h | h
    · exact Nat.le_of_eq (List.eq_of_mem_replicate h).symm
    · exact Nat.le_of_succ_le (ih h)

mutual

/-- As many edges leave a node as it has children. -/
theorem map_fst_edges : ∀ (t : Sketch) (id : Nat),
    ((t.edges id).map Prod.fst).Perm (sources id t.entries)
  | .node label cs, id => by
    rw [edges, entries, sources]
    exact map_fst_edgesBelow cs id (id + 1)

theorem map_fst_edgesBelow : ∀ (cs : List Sketch) (parent id : Nat),
    ((edgesBelow parent id cs).map Prod.fst).Perm
      (List.replicate cs.length parent ++ sources id (entriesAll cs))
  | [], _, _ => .nil
  | c :: cs, parent, id => by
    have hchild := map_fst_edges c id
    have hrest := map_fst_edgesBelow cs parent (id + c.entries.length)
    rw [edgesBelow, entriesAll, sources_append, List.map_cons, List.map_append, List.length_cons,
      List.replicate_succ, List.cons_append]
    exact ((hchild.append hrest).trans (List.perm_append_comm_assoc _ _ _)).cons parent

end

/-- Where labels agree, the sources of the edges tell the rest of the prefix notation. -/
theorem eq_of_sources {id : Nat} {es es' : List (String × Nat)}
    (hlabels : es.map Prod.fst = es'.map Prod.fst) (h : (sources id es).Perm (sources id es')) :
    es = es' := by
  induction es generalizing id es' with
  | nil => exact (List.map_eq_nil_iff.1 hlabels.symm).symm
  | cons e es ih =>
    cases es' with
    | nil => cases hlabels
    | cons e' es' =>
      rw [List.map_cons, List.map_cons, List.cons.injEq] at hlabels
      -- no later node has the number of this one
      have hcount (e : String × Nat) (es : List (String × Nat)) :
          (sources id (e :: es)).count id = e.2 := by
        have hlater : (sources (id + 1) es).count id = 0 := by
          rw [List.count_eq_zero]
          intro hmem
          exact absurd (le_of_mem_sources hmem) (Nat.not_succ_le_self id)
        rw [sources, List.count_append, List.count_replicate_self, hlater, Nat.add_zero]
      have hchildren : e.2 = e'.2 := by
        rw [← hcount e es, ← hcount e' es', h.count_eq]
      have he : e = e' := Prod.ext hlabels.1 hchildren
      subst he
      rw [ih hlabels.2 ((List.perm_append_left_iff _).1 h)]

/-- The labels of a tree. -/
def labels (t : Sketch) : List String := t.entries.map Prod.fst

/-- A drawing draws one tree only, in whatever order its edges are listed. -/
theorem eq_of_edges {t t' : Sketch} {id : Nat} (hlabels : t.labels = t'.labels)
    (hedges : (t.edges id).Perm (t'.edges id)) : t = t' := by
  have hsources : (sources id t.entries).Perm (sources id t'.entries) :=
    (map_fst_edges t id).symm.trans ((hedges.map Prod.fst).trans (map_fst_edges t' id))
  have hentries : t.entries ++ [] = t'.entries ++ [] := by
    rw [eq_of_sources hlabels hsources]
  exact (entries_append_inj t t' hentries).1

end Sketch

/-! ## Drawings -/

namespace Graph

open Scriptlet.Node

/-- The graph draws a tree whose root has number `id`. -/
structure Draws (g : Graph) (id : Nat) (t : Sketch) : Prop where
  labels : g.labels = t.labels
  edges : g.edges.Perm (t.edges id)

/-- The graph draws trees numbered from `id` on, with the edges to them from node `parent`. -/
structure DrawsBelow (g : Graph) (parent id : Nat) (ts : List Sketch) : Prop where
  labels : g.labels = (Sketch.entriesAll ts).map Prod.fst
  edges : g.edges.Perm (Sketch.edgesBelow parent id ts)

theorem drawsBelow_nil (parent id : Nat) : DrawsBelow ⟨[], []⟩ parent id [] := ⟨rfl, .nil⟩

theorem Draws.length_labels {g : Graph} {id : Nat} {t : Sketch} (h : g.Draws id t) :
    g.labels.length = t.entries.length := by
  rw [h.labels, Sketch.labels, List.length_map]

/-- One more tree in front of others. -/
theorem Draws.cons {g h : Graph} {parent id : Nat} {t : Sketch} {ts : List Sketch}
    (hg : g.Draws id t) (hh : h.DrawsBelow parent (id + g.labels.length) ts) :
    (besides (hang parent id g) h).DrawsBelow parent id (t :: ts) := by
  obtain ⟨hlabels, hedges⟩ := hh
  rw [hg.length_labels] at hedges
  refine ⟨?_, ?_⟩
  · show g.labels ++ h.labels = _
    rw [hg.labels, hlabels, Sketch.entriesAll, List.map_append]
    rfl
  · show (g.edges ++ [(parent, id)] ++ h.edges).Perm _
    rw [Sketch.edgesBelow, List.append_assoc]
    exact List.perm_middle.trans ((hg.edges.append hedges).cons _)

theorem Draws.single {g : Graph} {parent id : Nat} {t : Sketch} (hg : g.Draws id t) :
    (hang parent id g).DrawsBelow parent id [t] := by
  have h := hg.cons (drawsBelow_nil parent (id + g.labels.length))
  unfold besides at h
  rwa [List.append_nil, List.append_nil] at h

theorem DrawsBelow.onTop {g : Graph} {id : Nat} {ts : List Sketch}
    (h : g.DrawsBelow id (id + 1) ts) (label : String) :
    (onTop label g).Draws id (.node label ts) := by
  refine ⟨?_, h.edges⟩
  show label :: g.labels = _
  rw [h.labels]
  rfl

theorem draws_leaf (label : String) (id : Nat) : Draws ⟨[label], []⟩ id (.node label []) :=
  (drawsBelow_nil id (id + 1)).onTop label

end Graph

namespace Node

open Scriptlet.Graph

mutual

/-- What the graph of a syntax tree draws. -/
@[simp] def sketch : Node → Sketch
  | .unary s op a => .node (graphLabel (.unary s op a)) [sketch a]
  | .binary s a op b => .node (graphLabel (.binary s a op b)) [sketch a, sketch b]
  | .tuple s es => .node (graphLabel (.tuple s es)) (sketchAll es)
  | .index s a b => .node (graphLabel (.index s a b)) [sketch a, sketch b]
  | .call s f es => .node (graphLabel (.call s f es)) (sketch f :: slots 1 es)
  | .binding s n a => .node (graphLabel (.binding s n a)) [sketch a]
  | .expression s a => .node (graphLabel (.expression s a)) [sketch a]
  | .block s es => .node (graphLabel (.block s es)) (sketchAll es)
  | .program s es => .node (graphLabel (.program s es)) (sketchAll es)
  | .literal s v => .node (graphLabel (.literal s v)) []
  | .name s n => .node (graphLabel (.name s n)) []
  | .path s m f => .node (graphLabel (.path s m f)) []
  | .use s m f n => .node (graphLabel (.use s m f n)) []
  | .blank s b => .node (graphLabel (.blank s b)) []

/-- What the graphs of several trees draw. -/
@[simp] def sketchAll : List Node → List Sketch
  | [] => []
  | c :: cs => sketch c :: sketchAll cs

/-- The arguments of a call, each below its position, the first of them in position `position`. -/
@[simp] def slots (position : Nat) : List Node → List Sketch
  | [] => []
  | a :: rest => .node ("arg #" ++ toString position) [sketch a] :: slots (position + 1) rest

end

mutual

theorem draws_graphFrom : ∀ (n : Node) (id : Nat), (graphFrom id n).Draws id n.sketch
  | .unary _ _ a, id | .binding _ _ a, id | .expression _ a, id => by
    rw [graphFrom, sketch]
    exact (draws_graphFrom a (id + 1)).single.onTop _
  | .binary _ a _ b, id | .index _ a b, id => by
    rw [graphFrom, sketch]
    exact ((draws_graphFrom a (id + 1)).cons (draws_graphFrom b _).single).onTop _
  | .tuple _ es, id | .block _ es, id | .program _ es, id => by
    rw [graphFrom, sketch]
    exact (drawsBelow_graphBelow es id (id + 1)).onTop _
  | .call _ f es, id => by
    rw [graphFrom, sketch]
    exact ((draws_graphFrom f (id + 1)).cons (drawsBelow_graphArguments es id _ 1)).onTop _
  | .literal _ _, id | .name _ _, id | .path _ _ _, id | .use _ _ _ _, id | .blank _ _, id => by
    rw [graphFrom, sketch]
    exact draws_leaf _ id

theorem drawsBelow_graphBelow : ∀ (cs : List Node) (parent id : Nat),
    (graphBelow parent id cs).DrawsBelow parent id (sketchAll cs)
  | [], parent, id => by
    rw [graphBelow, sketchAll]
    exact drawsBelow_nil parent id
  | c :: cs, parent, id => by
    rw [graphBelow, sketchAll]
    exact (draws_graphFrom c id).cons (drawsBelow_graphBelow cs parent _)

/-- The edge to the position of an argument is listed before what is below it. -/
theorem drawsBelow_graphArguments : ∀ (es : List Node) (parent id position : Nat),
    (graphArguments parent id position es).DrawsBelow parent id (slots position es)
  | [], parent, id, position => by
    rw [graphArguments, slots]
    exact drawsBelow_nil parent id
  | a :: rest, parent, id, position => by
    have hslot := (draws_graphFrom a (id + 1)).single.onTop ("arg #" ++ toString position)
    obtain ⟨hlabels, hedges⟩ := hslot.cons (drawsBelow_graphArguments rest parent _ (position + 1))
    rw [graphArguments, slots]
    exact ⟨hlabels, (List.perm_append_singleton _ _).symm.append_right _ |>.trans hedges⟩

end

end Node

end Scriptlet
