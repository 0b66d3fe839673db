import Scriptlet.Proofs.Drawings
import Scriptlet.Proofs.Legible

/-!
# The text of a graph

A graph can be told from its text, whatever its labels are: they are escaped so that no line breaks
inside of a label and that different labels look different. And a legible tree can be told from its
graph, up to spans: the first two characters of a label tell the kind of a node, and the rest of the
label what else belongs to the node itself.

* `Graph.eq_of_text`: graphs with the same text are the same.
* `Node.bare_of_graph`: legible trees with the same graph are the same up to spans.
-/

namespace Scriptlet

namespace Graph

open Scriptlet.Text

/-! ## Labels -/

/-- A character stands for itself or is escaped by one other character. -/
theorem labelChar_spec (c : Char) :
    (labelChar c = [c] ∧ c ≠ '\\') ∨
      ∃ d, labelChar c = ['\\', d] ∧ c = if d = 'n' then '\n' else d := by
  unfold labelChar
  simp only [beq_iff_eq]
  split_ifs with hbackslash hquote hfeed
  · exact .inr ⟨'\\', rfl, hbackslash⟩
  · exact .inr ⟨'"', rfl, hquote⟩
  · exact .inr ⟨'n', rfl, hfeed⟩
  · exact .inl ⟨rfl, hbackslash⟩

theorem labelChar_append_inj {c c' : Char} {s s' : List Char}
    (h : labelChar c ++ s = labelChar c' ++ s') : c = c' ∧ s = s' := by
  rcases labelChar_spec c with ⟨hc, hne⟩ | ⟨d, hc, hd⟩
  · rcases labelChar_spec c' with ⟨hc', hne'⟩ | ⟨d', hc', hd'⟩
    · rw [hc, hc'] at h
      exact List.cons.inj h
    · rw [hc, hc'] at h
      exact absurd (List.cons.inj h).1 hne
  · rcases labelChar_spec c' with ⟨hc', hne'⟩ | ⟨d', hc', hd'⟩
    · rw [hc, hc'] at h
      exact absurd (List.cons.inj h).1.symm hne'
    · rw [hc, hc'] at h
      obtain ⟨rfl, rfl⟩ := List.cons.inj (List.cons.inj h).2
      exact ⟨hd.trans hd'.symm, rfl⟩

theorem labelChar_ne_nil (c : Char) : labelChar c ≠ [] := by
  rcases labelChar_spec c with ⟨hc, -⟩ | ⟨d, hc, -⟩
  · rw [hc]
    exact List.cons_ne_nil _ _
  · rw [hc]
    exact List.cons_ne_nil _ _

theorem eq_of_flatMap_labelChar {s s' : List Char}
    (h : s.flatMap labelChar = s'.flatMap labelChar) : s = s' := by
  induction s generalizing s' with
  | nil =>
    cases s' with
    | nil => rfl
    | cons c' s' => exact absurd (List.append_eq_nil_iff.1 h.symm).1 (labelChar_ne_nil c')
  | cons c s ih =>
    cases s' with
    | nil => exact absurd (List.append_eq_nil_iff.1 h).1 (labelChar_ne_nil c)
    | cons c' s' =>
      obtain ⟨rfl, hrest⟩ := labelChar_append_inj h
      rw [ih hrest]

theorem eq_of_label {s s' : String} (h : label s = label s') : s = s' := by
  have hbody := List.append_cancel_right (List.cons.inj (String.ofList_inj.1 h)).2
  exact String.toList_inj.1 (eq_of_flatMap_labelChar hbody)

theorem not_mem_labelChar (c : Char) : '\n' ∉ labelChar c := by
  unfold labelChar
  simp only [beq_iff_eq]
  split_ifs with _ _ hfeed
  · decide
  · decide
  · decide
  · simpa using Ne.symm hfeed

theorem not_mem_label (s : String) : '\n' ∉ (label s).toList := by
  simp [label, not_mem_labelChar]

/-! ## Lines -/

theorem toList_nodeName (id : Nat) : (nodeName id).toList = 'n' :: Nat.toDigits 10 id := by
  rw [nodeName, String.toList_append, Nat.toString_eq_repr, Nat.toList_repr]
  rfl

theorem eq_of_nodeName {i j : Nat} (h : (nodeName i).toList = (nodeName j).toList) : i = j := by
  rw [toList_nodeName, toList_nodeName] at h
  calc
    i = ofDigits 10 (Nat.toDigits 10 i) := (ofDigits_toDigits (by decide) (by decide) i).symm
    _ = ofDigits 10 (Nat.toDigits 10 j) := by rw [(List.cons.inj h).2]
    _ = j := ofDigits_toDigits (by decide) (by decide) j

theorem not_mem_nodeName {c : Char} (hdecimal : isDecimal c = false) (hc : c ≠ 'n') (id : Nat) :
    c ∉ (nodeName id).toList := by
  rw [toList_nodeName]
  intro hmem
  rcases List.mem_cons.1 hmem with h | h
  · exact hc h
  · rw [isDecimal_of_mem_toDigits h] at hdecimal
    cases hdecimal

theorem toList_nodeLine (id : Nat) (s : String) :
    (nodeLine id s).toList = ' ' :: ' ' :: ((nodeName id).toList ++ ' ' ::
      ("[label=".toList ++ ((label s).toList ++ "];".toList))) := by
  simp [nodeLine]

theorem toList_edgeLine (e : Nat × Nat) :
    (edgeLine e).toList = ' ' :: ' ' :: ((nodeName e.1).toList ++ ' ' ::
      ("-> ".toList ++ ((nodeName e.2).toList ++ ";".toList))) := by
  simp [edgeLine]

theorem eq_of_nodeLine {id : Nat} {s s' : String} (h : nodeLine id s = nodeLine id s') : s = s' := by
  have hchars := congrArg String.toList h
  rw [toList_nodeLine, toList_nodeLine] at hchars
  have hlabel := List.append_cancel_left (List.cons.inj (List.cons.inj hchars).2).2
  have hlabel' := List.append_cancel_left (List.cons.inj hlabel).2
  exact eq_of_label (String.toList_inj.1 (List.append_cancel_right hlabel'))

theorem eq_of_edgeLine {e e' : Nat × Nat} (h : edgeLine e = edgeLine e') : e = e' := by
  have hchars := congrArg String.toList h
  rw [toList_edgeLine, toList_edgeLine] at hchars
  obtain ⟨hsource, hrest⟩ := append_cons_inj (not_mem_nodeName rfl (by decide) e.1)
    (not_mem_nodeName rfl (by decide) e'.1) (List.cons.inj (List.cons.inj hchars).2).2
  have htarget := List.append_cancel_right (List.append_cancel_left hrest)
  exact Prod.ext (eq_of_nodeName hsource) (eq_of_nodeName htarget)

/-- What comes after the nodes has no bracket. -/
theorem not_mem_edgeLines {es : List (Nat × Nat)} {line : String}
    (h : line ∈ es.map edgeLine ++ ["\x7d"]) : '[' ∉ line.toList ∧ '\n' ∉ line.toList := by
  rcases List.mem_append.1 h with h | h
  · obtain ⟨e, -, rfl⟩ := List.mem_map.1 h
    have hbracket := not_mem_nodeName (c := '[') rfl (by decide)
    have hfeed := not_mem_nodeName (c := '\n') rfl (by decide)
    rw [toList_edgeLine]
    simp [hbracket, hfeed]
  · rw [List.mem_singleton.1 h]
    decide

theorem not_mem_nodeLines {id : Nat} {ls : List String} {line : String}
    (h : line ∈ nodeLines id ls) : '\n' ∉ line.toList := by
  induction ls generalizing id with
  | nil => cases h
  | cons l ls ih =>
    rcases List.mem_cons.1 h with rfl | h
    · rw [toList_nodeLine]
      simp [not_mem_nodeName, not_mem_label, show isDecimal '\n' = false from rfl]
    · exact ih h

/-- Nodes and edges can be told apart, since a line with a bracket is the line of a node. -/
theorem nodeLines_append_inj {id : Nat} {ls ls' : List String} {es es' : List (Nat × Nat)}
    (h : nodeLines id ls ++ (es.map edgeLine ++ ["\x7d"]) =
      nodeLines id ls' ++ (es'.map edgeLine ++ ["\x7d"])) : ls = ls' ∧ es = es' := by
  have hbracket (id : Nat) (s : String) : '[' ∈ (nodeLine id s).toList := by
    rw [toList_nodeLine]
    simp
  induction ls generalizing id ls' with
  | nil =>
    cases ls' with
    | nil =>
      have hedges := List.append_cancel_right (List.append_cancel_left h)
      exact ⟨rfl, List.map_injective_iff.2 (fun _ _ => eq_of_edgeLine) hedges⟩
    | cons l' ls' =>
      have hmem : nodeLine id l' ∈ es.map edgeLine ++ ["\x7d"] := h ▸ List.mem_cons_self
      exact absurd (hbracket id l') (not_mem_edgeLines hmem).1
  | cons l ls ih =>
    cases ls' with
    | nil =>
      have hmem : nodeLine id l ∈ es'.map edgeLine ++ ["\x7d"] := h ▸ List.mem_cons_self
      exact absurd (hbracket id l) (not_mem_edgeLines hmem).1
    | cons l' ls' =>
      obtain ⟨hline, hrest⟩ := List.cons.inj h
      obtain ⟨rfl, hes⟩ := ih hrest
      exact ⟨by rw [eq_of_nodeLine hline], hes⟩

/-- The lines of the text of a graph. -/
def lines (name : String) (g : Graph) : List String :=
  ("digraph " ++ name ++ " \x7b") :: "  node [shape=box];" ::
    (nodeLines 0 g.labels ++ (g.edges.map edgeLine ++ ["\x7d"]))

theorem text_eq (name : String) (g : Graph) : g.text name = "\n".intercalate (g.lines name) ++ "\n" := by
  simp only [text, lines, List.cons_append, List.append_assoc]

theorem not_mem_lines {name : String} (hname : '\n' ∉ name.toList) (g : Graph) :
    ∀ line ∈ g.lines name, '\n' ∉ line.toList := by
  rw [lines, List.forall_mem_cons, List.forall_mem_cons, List.forall_mem_append]
  refine ⟨by simp [hname], by decide, fun line => not_mem_nodeLines, ?_⟩
  intro line h
  exact (not_mem_edgeLines h).2

/-- A graph can be told from its text. -/
theorem eq_of_text {name : String} (hname : '\n' ∉ name.toList) {g g' : Graph}
    (h : g.text name = g'.text name) : g = g' := by
  rw [text_eq, text_eq, String.append_left_inj] at h
  have hlines := eq_of_intercalate (not_mem_lines hname g) (not_mem_lines hname g')
    (List.cons_ne_nil _ _) (List.cons_ne_nil _ _) h
  obtain ⟨hlabels, hedges⟩ := nodeLines_append_inj (List.cons.inj (List.cons.inj hlines).2).2
  cases g
  cases g'
  rw [mk.injEq]
  exact ⟨hlabels, hedges⟩

end Graph

namespace Node

open Scriptlet.Graph Scriptlet.Lexical Scriptlet.Text

/-! ## Labels of nodes -/

/-- The first two characters of a label, which tell the kind of the node. -/
def mark : Node → List Char
  | .literal _ _ => ['L', 'i']
  | .name _ _ => ['I', 'd']
  | .unary _ _ _ => ['U', 'n']
  | .binary _ _ _ _ => ['B', 'i']
  | .tuple _ _ => ['T', 'u']
  | .index _ _ _ => ['I', 'n']
  | .path _ _ _ => ['P', 'a']
  | .call _ _ _ => ['C', 'a']
  | .binding _ _ _ => ['l', 'e']
  | .expression _ _ => ['e', 'x']
  | .block _ _ => ['b', 'l']
  | .use _ _ _ _ => ['u', 's']
  | .program _ _ => ['P', 'r']
  | .blank _ _ => []

theorem take_graphLabel {n : Node} (h : n.Legible) : n.graphLabel.toList.take 2 = n.mark := by
  cases h <;> simp [graphLabel, mark]

theorem sketch_eq (n : Node) : ∃ children, n.sketch = .node n.graphLabel children := by
  cases n <;> exact ⟨_, by rw [sketch]⟩

theorem mark_of_sketch {n n' : Node} (hn : n.Legible) (hn' : n'.Legible)
    (h : n.sketch = n'.sketch) : n.mark = n'.mark := by
  obtain ⟨children, hsketch⟩ := sketch_eq n
  obtain ⟨children', hsketch'⟩ := sketch_eq n'
  rw [hsketch, hsketch', Sketch.node.injEq] at h
  rw [← take_graphLabel hn, ← take_graphLabel hn', h.1]

/-- The parts of a path can be told apart, since no name has a colon in it. -/
theorem eq_of_pathText {m m' f f' : String} (hm : IsName m) (hm' : IsName m') {rest rest' : List Char}
    (h : (pathText m f).toList ++ rest = (pathText m' f').toList ++ rest') :
    m = m' ∧ f.toList ++ rest = f'.toList ++ rest' := by
  have hpath (m f : String) (rest : List Char) : (pathText m f).toList ++ rest =
      m.toList ++ ':' :: ':' :: (f.toList ++ rest) := by
    simp [pathText]
  rw [hpath, hpath] at h
  obtain ⟨hmodule, hrest⟩ := append_cons_inj (hm.not_mem rfl) (hm'.not_mem rfl) h
  exact ⟨String.toList_inj.1 hmodule, (List.cons.inj hrest).2⟩

/-- What a `use` statement ends with, after its path. -/
def aliasText : Option String → String
  | some newName => " as " ++ newName
  | none => ""

theorem graphLabel_use (span : Option Span) (m f : String) (newName : Option String) :
    graphLabel (.use span m f newName) = "use " ++ pathText m f ++ aliasText newName := by
  cases newName <;> rfl

theorem eq_of_aliasText {f f' : String} {newName newName' : Option String} (hf : IsName f)
    (hf' : IsName f')
    (h : f.toList ++ (aliasText newName).toList = f'.toList ++ (aliasText newName').toList) :
    f = f' ∧ newName = newName' := by
  have hsome (n : String) : (aliasText (some n)).toList = ' ' :: ("as ".toList ++ n.toList) := by
    simp [aliasText]
  have hnone : (aliasText none).toList = [] := rfl
  cases newName with
  | none =>
    cases newName' with
    | none => exact ⟨String.toList_inj.1 (List.append_cancel_right h), rfl⟩
    | some n' =>
      -- a name has no blank in it
      rw [hsome, hnone, List.append_nil] at h
      exact absurd (h ▸ List.mem_append_right _ List.mem_cons_self) (hf.not_mem (c := ' ') rfl)
  | some n =>
    cases newName' with
    | none =>
      rw [hsome, hnone, List.append_nil] at h
      exact absurd (h ▸ List.mem_append_right _ List.mem_cons_self) (hf'.not_mem (c := ' ') rfl)
    | some n' =>
      rw [hsome, hsome] at h
      obtain ⟨hsymbol, halias⟩ := append_cons_inj (hf.not_mem rfl) (hf'.not_mem rfl) h
      have hn := String.toList_inj.1 (List.append_cancel_left halias)
      exact ⟨String.toList_inj.1 hsymbol, congrArg some hn⟩

/-! ## Trees from their sketches -/

/-- `n` can be told from its sketch, among legible trees and up to spans. -/
def Told (n : Node) : Prop := ∀ n' : Node, n'.Legible → n.sketch = n'.sketch → n.bare = n'.bare

theorem bareAll_of_sketchAll {es es' : List Node} (hes : ∀ e ∈ es, e.Told)
    (hes' : ∀ e ∈ es', e.Legible) (h : sketchAll es = sketchAll es') : bareAll es = bareAll es' := by
  induction es generalizing es' with
  | nil =>
    cases es' with
    | nil => rfl
    | cons e' es' => cases h
  | cons e es ih =>
    cases es' with
    | nil => cases h
    | cons e' es' =>
      rw [List.forall_mem_cons] at hes hes'
      rw [sketchAll, sketchAll, List.cons.injEq] at h
      rw [bareAll, bareAll, hes.1 e' hes'.1 h.1, ih hes.2 hes'.2 h.2]

theorem bareAll_of_slots {es es' : List Node} {position : Nat} (hes : ∀ e ∈ es, e.Told)
    (hes' : ∀ e ∈ es', e.Legible) (h : slots position es = slots position es') :
    bareAll es = bareAll es' := by
  induction es generalizing position es' with
  | nil =>
    cases es' with
    | nil => rfl
    | cons e' es' => cases h
  | cons e es ih =>
    cases es' with
    | nil => cases h
    | cons e' es' =>
      rw [List.forall_mem_cons] at hes hes'
      simp only [slots, List.cons.injEq, Sketch.node.injEq, true_and, and_true] at h
      rw [bareAll, bareAll, hes.1 e' hes'.1 h.1, ih hes.2 hes'.2 h.2]

/-- Legible trees can be told from their sketches. The mark of the label rules out all nodes of other
kinds. -/
theorem Legible.told {n : Node} (hn : n.Legible) : n.Told := by
  induction hn with
  | literal span hv =>
    intro n' hn' h
    have hmark := mark_of_sketch (.literal span hv) hn' h
    cases hn' with
    | literal span' hv' =>
      simp only [sketch, graphLabel, Sketch.node.injEq, String.append_right_inj, and_true] at h
      rw [bare, bare, Value.eq_of_text hv hv' h]
    | _ => simp [mark] at hmark
  | name span hname =>
    intro n' hn' h
    have hmark := mark_of_sketch (.name span hname) hn' h
    cases hn' with
    | name span' hname' =>
      simp only [sketch, graphLabel, Sketch.node.injEq, String.append_right_inj, and_true] at h
      rw [bare, bare, h]
    | _ => simp [mark] at hmark
  | unary span hop ha iha =>
    intro n' hn' h
    have hmark := mark_of_sketch (.unary span hop ha) hn' h
    cases hn' with
    | unary span' hop' ha' =>
      simp only [sketch, graphLabel, Sketch.node.injEq, String.append_right_inj, List.cons.injEq,
        and_true] at h
      rw [bare, bare, h.1, iha _ ha' h.2]
    | _ => simp [mark] at hmark
  | binary span hop ha hb iha ihb =>
    intro n' hn' h
    have hmark := mark_of_sketch (.binary span hop ha hb) hn' h
    cases hn' with
    | binary span' hop' ha' hb' =>
      simp only [sketch, graphLabel, Sketch.node.injEq, String.append_right_inj, List.cons.injEq,
        and_true] at h
      rw [bare, bare, h.1, iha _ ha' h.2.1, ihb _ hb' h.2.2]
    | _ => simp [mark] at hmark
  | tuple span hes ih =>
    intro n' hn' h
    have hmark := mark_of_sketch (.tuple span hes) hn' h
    cases hn' with
    | tuple span' hes' =>
      simp only [sketch, Sketch.node.injEq] at h
      rw [bare, bare, bareAll_of_sketchAll ih hes' h.2]
    | _ => simp [mark] at hmark
  | index span ha hb iha ihb =>
    intro n' hn' h
    have hmark := mark_of_sketch (.index span ha hb) hn' h
    cases hn' with
    | index span' ha' hb' =>
      simp only [sketch, graphLabel, Sketch.node.injEq, List.cons.injEq, true_and, and_true] at h
      rw [bare, bare, iha _ ha' h.1, ihb _ hb' h.2]
    | _ => simp [mark] at hmark
  | @path span m f hm hf =>
    intro n' hn' h
    have hmark := mark_of_sketch (.path span hm hf) hn' h
    cases hn' with
    | @path span' m' f' hm' hf' =>
      simp only [sketch, graphLabel, Sketch.node.injEq, String.append_right_inj, and_true] at h
      have hchars : (pathText m f).toList ++ [] = (pathText m' f').toList ++ [] := by rw [h]
      obtain ⟨rfl, hsymbol⟩ := eq_of_pathText hm hm' hchars
      rw [List.append_nil, List.append_nil, String.toList_inj] at hsymbol
      rw [bare, bare, hsymbol]
    | _ => simp [mark] at hmark
  | call span hf hes ihf ihes =>
    intro n' hn' h
    have hmark := mark_of_sketch (.call span hf hes) hn' h
    cases hn' with
    | call span' hf' hes' =>
      simp only [sketch, graphLabel, Sketch.node.injEq, List.cons.injEq, true_and] at h
      rw [bare, bare, ihf _ hf' h.1, bareAll_of_slots ihes hes' h.2]
    | _ => simp [mark] at hmark
  | binding span hname ha iha =>
    intro n' hn' h
    have hmark := mark_of_sketch (.binding span hname ha) hn' h
    cases hn' with
    | binding span' hname' ha' =>
      simp only [sketch, graphLabel, Sketch.node.injEq, String.append_right_inj, List.cons.injEq,
        and_true] at h
      rw [bare, bare, h.1, iha _ ha' h.2]
    | _ => simp [mark] at hmark
  | expression span ha iha =>
    intro n' hn' h
    have hmark := mark_of_sketch (.expression span ha) hn' h
    cases hn' with
    | expression span' ha' =>
      simp only [sketch, graphLabel, Sketch.node.injEq, List.cons.injEq, true_and, and_true] at h
      rw [bare, bare, iha _ ha' h]
    | _ => simp [mark] at hmark
  | block span hes ih =>
    intro n' hn' h
    have hmark := mark_of_sketch (.block span hes) hn' h
    cases hn' with
    | block span' hes' =>
      simp only [sketch, Sketch.node.injEq] at h
      rw [bare, bare, bareAll_of_sketchAll ih hes' h.2]
    | _ => simp [mark] at hmark
  | @use span m f newName hm hf hn =>
    intro n' hn' h
    have hmark := mark_of_sketch (.use span hm hf hn) hn' h
    cases hn' with
    | @use span' m' f' newName' hm' hf' hn' =>
      simp only [sketch, graphLabel_use, Sketch.node.injEq, and_true] at h
      have hchars := congrArg String.toList h
      simp only [String.toList_append, List.append_assoc, List.append_cancel_left_eq] at hchars
      obtain ⟨rfl, hrest⟩ := eq_of_pathText hm hm' hchars
      obtain ⟨rfl, rfl⟩ := eq_of_aliasText hf hf' hrest
      rfl
    | _ => simp [mark] at hmark
  | program span hes ih =>
    intro n' hn' h
    have hmark := mark_of_sketch (.program span hes) hn' h
    cases hn' with
    | program span' hes' =>
      simp only [sketch, Sketch.node.injEq] at h
      rw [bare, bare, bareAll_of_sketchAll ih hes' h.2]
    | _ => simp [mark] at hmark

/-- Legible trees with the same graph are the same up to spans. -/
theorem bare_of_graph {n n' : Node} (hn : n.Legible) (hn' : n'.Legible)
    (h : n.graph = n'.graph) : n.bare = n'.bare := by
  have hdraws := draws_graphFrom n 0
  have hdraws' := draws_graphFrom n' 0
  have hlabels : n.sketch.labels = n'.sketch.labels := by
    rw [← hdraws.labels, ← hdraws'.labels]
    exact congrArg Graph.labels h
  have hedges : (n.sketch.edges 0).Perm (n'.sketch.edges 0) :=
    hdraws.edges.symm.trans ((List.Perm.of_eq (congrArg Graph.edges h)).trans hdraws'.edges)
  exact hn.told n' hn' (Sketch.eq_of_edges hlabels hedges)

end Node

end Scriptlet
