import Scriptlet.Proofs.GraphText

/-!
# Renderings lose only positions

A program that comes from source text can be told from its graph and from its outline, up to spans. For
the outline this is a matter of the order of its lines: the first line of a tree tells its kind, each kind
has its own fields in their order, and a list of nodes ends with a bracket that stands further out than
the first line of a node would.

* `Node.Legible.listed`: whatever lines come after it, a legible tree can be told from its lines.
* `Program.rendered_eq_iff`: two programs have the same text as graphs, or as outlines, if and only if they
  are the same up to spans.
-/

namespace Scriptlet

namespace Node

open Scriptlet.Lexical Scriptlet.Text

/-! ## Lines -/

theorem toList_outlineLine (indent : Nat) (text : String) :
    (outlineLine indent text).toList = List.replicate (2 * indent) ' ' ++ text.toList := by
  rw [outlineLine, String.toList_append, String.toList_ofList]

theorem eq_of_outlineLine {indent : Nat} {s s' : String}
    (h : outlineLine indent s = outlineLine indent s') : s = s' := by
  have hchars := congrArg String.toList h
  rw [toList_outlineLine, toList_outlineLine] at hchars
  exact String.toList_inj.1 (List.append_cancel_left hchars)

/-- No line that is indented further looks like the end of a list. -/
theorem outlineLine_ne (indent : Nat) (s : String) :
    outlineLine (indent + 1) s ≠ outlineLine indent "]" := by
  intro h
  have hchars := congrArg String.toList h
  rw [toList_outlineLine, toList_outlineLine, Nat.mul_succ, List.replicate_add, List.append_assoc]
    at hchars
  cases List.append_cancel_left hchars

theorem eq_of_textField {indent : Nat} {field s s' : String} (hs : IsPlain s) (hs' : IsPlain s')
    (h : textField indent field s = textField indent field s') : s = s' := by
  have hquote := eq_of_outlineLine h
  rw [String.append_right_inj] at hquote
  exact eq_of_quote hs hs' hquote

/-- The line of the new name in a `use` statement. -/
def aliasLine (indent : Nat) : Option String → String
  | some newName => textField indent "alias" newName
  | none => outlineLine (indent + 1) "alias: None"

theorem outlineLines_use (indent : Nat) (span : Option Span) (m f : String)
    (newName : Option String) : outlineLines indent (.use span m f newName) =
      [outlineLine indent "UseStatement", textField indent "module" m, textField indent "symbol" f,
        aliasLine indent newName] := by
  cases newName <;> rfl

/-- A name stands between quotes, and the word for none does not. -/
theorem eq_of_aliasLine {indent : Nat} {newName newName' : Option String}
    (hn : ∀ n ∈ newName, IsName n) (hn' : ∀ n ∈ newName', IsName n)
    (h : aliasLine indent newName = aliasLine indent newName') : newName = newName' := by
  have hne {n : String} (hn : IsName n) :
      outlineLine (indent + 1) "alias: None" ≠ textField indent "alias" n := by
    intro h
    have htext := congrArg String.toList (eq_of_outlineLine h)
    rw [quote_of_isPlain hn.isPlain] at htext
    simp at htext
  cases newName with
  | none =>
    cases newName' with
    | none => rfl
    | some n' => exact absurd h (hne (hn' n' rfl))
  | some n =>
    cases newName' with
    | none => exact absurd h.symm (hne (hn n rfl))
    | some n' =>
      exact congrArg some (eq_of_textField (hn n rfl).isPlain (hn' n' rfl).isPlain h)

theorem outlineLines_eq (indent : Nat) (n : Node) :
    ∃ ls, outlineLines indent n = outlineLine indent n.kindName :: ls := by
  cases n <;> exact ⟨_, rfl⟩

theorem kindName_of_outlineLines {indent : Nat} {n n' : Node} {rest rest' : List String}
    (h : outlineLines indent n ++ rest = outlineLines indent n' ++ rest') :
    n.kindName = n'.kindName := by
  obtain ⟨ls, hls⟩ := outlineLines_eq indent n
  obtain ⟨ls', hls'⟩ := outlineLines_eq indent n'
  rw [hls, hls'] at h
  exact eq_of_outlineLine (List.cons.inj h).1

/-! ## Trees from their lines -/

/-- `n` can be told from its lines, among legible trees and up to spans, whatever comes after them. -/
def Listed (n : Node) : Prop :=
  ∀ (n' : Node) (indent : Nat) (rest rest' : List String), n'.Legible →
    outlineLines indent n ++ rest = outlineLines indent n' ++ rest' →
      n.bare = n'.bare ∧ rest = rest'

/-- The elements of a list go up to the bracket. -/
theorem outlineAll_append_inj {es es' : List Node} {indent : Nat} {rest rest' : List String}
    (hes : ∀ e ∈ es, e.Listed) (hes' : ∀ e ∈ es', e.Legible)
    (h : outlineAll (indent + 1) es ++ outlineLine indent "]" :: rest =
      outlineAll (indent + 1) es' ++ outlineLine indent "]" :: rest') :
    bareAll es = bareAll es' ∧ rest = rest' := by
  induction es generalizing es' with
  | nil =>
    cases es' with
    | nil => exact ⟨rfl, (List.cons.inj h).2⟩
    | cons e' es' =>
      obtain ⟨ls, hls⟩ := outlineLines_eq (indent + 1) e'
      rw [outlineAll, outlineAll, hls] at h
      exact absurd (List.cons.inj h).1.symm (outlineLine_ne indent _)
  | cons e es ih =>
    cases es' with
    | nil =>
      obtain ⟨ls, hls⟩ := outlineLines_eq (indent + 1) e
      rw [outlineAll, outlineAll, hls] at h
      exact absurd (List.cons.inj h).1 (outlineLine_ne indent _)
    | cons e' es' =>
      rw [List.forall_mem_cons] at hes hes'
      rw [outlineAll, outlineAll, List.append_assoc, List.append_assoc] at h
      obtain ⟨he, h⟩ := hes.1 e' (indent + 1) _ _ hes'.1 h
      obtain ⟨hbare, hrest⟩ := ih hes.2 hes'.2 h
      exact ⟨by rw [bareAll, bareAll, he, hbare], hrest⟩

theorem listField_append_inj {es es' : List Node} {indent : Nat} {field : String}
    {rest rest' : List String} (hes : ∀ e ∈ es, e.Listed) (hes' : ∀ e ∈ es', e.Legible)
    (h : listField indent field (outlineAll (indent + 2) es) ++ rest =
      listField indent field (outlineAll (indent + 2) es') ++ rest') :
    bareAll es = bareAll es' ∧ rest = rest' := by
  simp only [listField, List.cons_append, List.append_assoc, List.nil_append, List.cons.injEq,
    true_and] at h
  exact outlineAll_append_inj hes hes' h

/-- Legible trees can be told from their lines. The kind in the first line rules out all nodes of other
kinds. -/
theorem Legible.listed {n : Node} (hn : n.Legible) : n.Listed := by
  induction hn with
  | literal span hv =>
    intro n' indent rest rest' hn' h
    have hkind := kindName_of_outlineLines h
    cases hn' with
    | literal span' hv' =>
      simp only [outlineLines, List.cons_append, List.nil_append, List.cons.injEq, true_and] at h
      have htext := eq_of_outlineLine h.1
      rw [String.append_right_inj] at htext
      exact ⟨by rw [bare, bare, Value.eq_of_text hv hv' htext], h.2⟩
    | _ => simp [kindName] at hkind
  | name span hname =>
    intro n' indent rest rest' hn' h
    have hkind := kindName_of_outlineLines h
    cases hn' with
    | name span' hname' =>
      simp only [outlineLines, List.cons_append, List.nil_append, List.cons.injEq, true_and] at h
      exact ⟨by rw [bare, bare, eq_of_textField hname.isPlain hname'.isPlain h.1], h.2⟩
    | _ => simp [kindName] at hkind
  | unary span hop ha iha =>
    intro n' indent rest rest' hn' h
    have hkind := kindName_of_outlineLines h
    cases hn' with
    | unary span' hop' ha' =>
      simp only [outlineLines, List.cons_append, List.cons.injEq, true_and] at h
      obtain ⟨hbare, hrest⟩ := iha _ _ _ _ ha' h.2
      exact ⟨by rw [bare, bare, eq_of_textField hop hop' h.1, hbare], hrest⟩
    | _ => simp [kindName] at hkind
  | binary span hop ha hb iha ihb =>
    intro n' indent rest rest' hn' h
    have hkind := kindName_of_outlineLines h
    cases hn' with
    | binary span' hop' ha' hb' =>
      simp only [outlineLines, List.cons_append, List.append_assoc, List.cons.injEq, true_and] at h
      obtain ⟨hleft, h⟩ := iha _ _ _ _ ha' h
      simp only [List.cons.injEq, true_and] at h
      obtain ⟨hright, hrest⟩ := ihb _ _ _ _ hb' h.2
      exact ⟨by rw [bare, bare, eq_of_textField hop hop' h.1, hleft, hright], hrest⟩
    | _ => simp [kindName] at hkind
  | tuple span hes ih =>
    intro n' indent rest rest' hn' h
    have hkind := kindName_of_outlineLines h
    cases hn' with
    | tuple span' hes' =>
      simp only [outlineLines, List.cons_append, List.cons.injEq, true_and] at h
      obtain ⟨hbare, hrest⟩ := listField_append_inj ih hes' h
      exact ⟨by rw [bare, bare, hbare], hrest⟩
    | _ => simp [kindName] at hkind
  | index span ha hb iha ihb =>
    intro n' indent rest rest' hn' h
    have hkind := kindName_of_outlineLines h
    cases hn' with
    | index span' ha' hb' =>
      simp only [outlineLines, List.cons_append, List.append_assoc, List.cons.injEq, true_and] at h
      obtain ⟨hobject, h⟩ := iha _ _ _ _ ha' h
      simp only [List.cons.injEq, true_and] at h
      obtain ⟨hposition, hrest⟩ := ihb _ _ _ _ hb' h
      exact ⟨by rw [bare, bare, hobject, hposition], hrest⟩
    | _ => simp [kindName] at hkind
  | path span hm hf =>
    intro n' indent rest rest' hn' h
    have hkind := kindName_of_outlineLines h
    cases hn' with
    | path span' hm' hf' =>
      simp only [outlineLines, List.cons_append, List.nil_append, List.cons.injEq, true_and] at h
      have hmodule := eq_of_textField hm.isPlain hm'.isPlain h.1
      have hsymbol := eq_of_textField hf.isPlain hf'.isPlain h.2.1
      exact ⟨by rw [bare, bare, hmodule, hsymbol], h.2.2⟩
    | _ => simp [kindName] at hkind
  | call span hf hes ihf ihes =>
    intro n' indent rest rest' hn' h
    have hkind := kindName_of_outlineLines h
    cases hn' with
    | call span' hf' hes' =>
      simp only [outlineLines, List.cons_append, List.append_assoc, List.cons.injEq, true_and] at h
      obtain ⟨hcallee, h⟩ := ihf _ _ _ _ hf' h
      obtain ⟨harguments, hrest⟩ := listField_append_inj ihes hes' h
      exact ⟨by rw [bare, bare, hcallee, harguments], hrest⟩
    | _ => simp [kindName] at hkind
  | binding span hname ha iha =>
    intro n' indent rest rest' hn' h
    have hkind := kindName_of_outlineLines h
    cases hn' with
    | binding span' hname' ha' =>
      simp only [outlineLines, List.cons_append, List.cons.injEq, true_and] at h
      obtain ⟨hbare, hrest⟩ := iha _ _ _ _ ha' h.2
      exact ⟨by rw [bare, bare, eq_of_textField hname.isPlain hname'.isPlain h.1, hbare], hrest⟩
    | _ => simp [kindName] at hkind
  | expression span ha iha =>
    intro n' indent rest rest' hn' h
    have hkind := kindName_of_outlineLines h
    cases hn' with
    | expression span' ha' =>
      simp only [outlineLines, List.cons_append, List.cons.injEq, true_and] at h
      obtain ⟨hbare, hrest⟩ := iha _ _ _ _ ha' h
      exact ⟨by rw [bare, bare, hbare], hrest⟩
    | _ => simp [kindName] at hkind
  | block span hes ih =>
    intro n' indent rest rest' hn' h
    have hkind := kindName_of_outlineLines h
    cases hn' with
    | block span' hes' =>
      simp only [outlineLines, List.cons_append, List.cons.injEq, true_and] at h
      obtain ⟨hbare, hrest⟩ := listField_append_inj ih hes' h
      exact ⟨by rw [bare, bare, hbare], hrest⟩
    | _ => simp [kindName] at hkind
  | use span hm hf hn =>
    intro n' indent rest rest' hn' h
    have hkind := kindName_of_outlineLines h
    cases hn' with
    | use span' hm' hf' hn' =>
      simp only [outlineLines_use, List.cons_append, List.nil_append, List.cons.injEq, true_and] at h
      have hmodule := eq_of_textField hm.isPlain hm'.isPlain h.1
      have hsymbol := eq_of_textField hf.isPlain hf'.isPlain h.2.1
      have halias := eq_of_aliasLine hn hn' h.2.2.1
      exact ⟨by rw [bare, bare, hmodule, hsymbol, halias], h.2.2.2⟩
    | _ => simp [kindName] at hkind
  | program span hes ih =>
    intro n' indent rest rest' hn' h
    have hkind := kindName_of_outlineLines h
    cases hn' with
    | program span' hes' =>
      simp only [outlineLines, List.cons_append, List.cons.injEq, true_and] at h
      obtain ⟨hbare, hrest⟩ := listField_append_inj ih hes' h
      exact ⟨by rw [bare, bare, hbare], hrest⟩
    | _ => simp [kindName] at hkind

/-! ## Text -/

theorem not_mem_outlineLine {indent : Nat} {s : String} (h : '\n' ∉ s.toList) :
    '\n' ∉ (outlineLine indent s).toList := by
  rw [toList_outlineLine]
  simp [h]

theorem not_mem_textField {indent : Nat} {field s : String} (hfield : '\n' ∉ field.toList)
    (hs : IsPlain s) : '\n' ∉ (textField indent field s).toList := by
  have hfeed : '\n' ∉ s.toList := by
    intro hmem
    exact absurd (List.all_eq_true.1 hs _ hmem) (by decide)
  apply not_mem_outlineLine
  rw [quote_of_isPlain hs]
  simp [hfield, hfeed]

theorem not_mem_listField {indent : Nat} {field : String} {lines : List String}
    (hfield : '\n' ∉ field.toList) (hlines : ∀ line ∈ lines, '\n' ∉ line.toList) :
    ∀ line ∈ listField indent field lines, '\n' ∉ line.toList := by
  rw [listField, List.cons_append, List.forall_mem_cons, List.forall_mem_append,
    List.forall_mem_singleton]
  exact ⟨not_mem_outlineLine (by simp [hfield]), hlines, not_mem_outlineLine (by decide)⟩

theorem not_mem_outlineAll {indent : Nat} {es : List Node}
    (h : ∀ e ∈ es, ∀ line ∈ outlineLines indent e, '\n' ∉ line.toList) :
    ∀ line ∈ outlineAll indent es, '\n' ∉ line.toList := by
  induction es with
  | nil => exact List.forall_mem_nil _
  | cons e es ih =>
    rw [List.forall_mem_cons] at h
    rw [outlineAll, List.forall_mem_append]
    exact ⟨h.1, ih h.2⟩

/-- No line of a legible tree breaks. -/
theorem Legible.not_mem_outlineLines {n : Node} (hn : n.Legible) (indent : Nat) :
    ∀ line ∈ outlineLines indent n, '\n' ∉ line.toList := by
  induction hn generalizing indent with
  | literal span hv =>
    simp only [outlineLines, List.forall_mem_cons]
    exact ⟨not_mem_outlineLine (by decide),
      not_mem_outlineLine (by simp [Value.not_mem_text hv]), List.forall_mem_nil _⟩
  | name span hname =>
    simp only [outlineLines, List.forall_mem_cons]
    exact ⟨not_mem_outlineLine (by decide), not_mem_textField (by decide) hname.isPlain,
      List.forall_mem_nil _⟩
  | unary span hop _ iha =>
    simp only [outlineLines, List.forall_mem_cons]
    exact ⟨not_mem_outlineLine (by decide), not_mem_textField (by decide) hop,
      not_mem_outlineLine (by decide), iha _⟩
  | binary span hop _ _ iha ihb =>
    simp only [outlineLines, List.cons_append, List.forall_mem_cons, List.forall_mem_append]
    exact ⟨not_mem_outlineLine (by decide), not_mem_outlineLine (by decide), iha _,
      not_mem_textField (by decide) hop, not_mem_outlineLine (by decide), ihb _⟩
  | tuple span _ ih =>
    rw [outlineLines, List.forall_mem_cons]
    exact ⟨not_mem_outlineLine (by decide),
      not_mem_listField (by decide) (not_mem_outlineAll fun e he => ih e he _)⟩
  | index span _ _ iha ihb =>
    simp only [outlineLines, List.cons_append, List.forall_mem_cons, List.forall_mem_append]
    exact ⟨not_mem_outlineLine (by decide), not_mem_outlineLine (by decide), iha _,
      not_mem_outlineLine (by decide), ihb _⟩
  | path span hm hf =>
    simp only [outlineLines, List.forall_mem_cons]
    exact ⟨not_mem_outlineLine (by decide), not_mem_textField (by decide) hm.isPlain,
      not_mem_textField (by decide) hf.isPlain, List.forall_mem_nil _⟩
  | call span _ _ ihf ihes =>
    simp only [outlineLines, List.cons_append, List.forall_mem_cons, List.forall_mem_append]
    exact ⟨not_mem_outlineLine (by decide), not_mem_outlineLine (by decide), ihf _,
      not_mem_listField (by decide) (not_mem_outlineAll fun e he => ihes e he _)⟩
  | binding span hname _ iha =>
    simp only [outlineLines, List.forall_mem_cons]
    exact ⟨not_mem_outlineLine (by decide), not_mem_textField (by decide) hname.isPlain,
      not_mem_outlineLine (by decide), iha _⟩
  | expression span _ iha =>
    simp only [outlineLines, List.forall_mem_cons]
    exact ⟨not_mem_outlineLine (by decide), not_mem_outlineLine (by decide), iha _⟩
  | block span _ ih =>
    rw [outlineLines, List.forall_mem_cons]
    exact ⟨not_mem_outlineLine (by decide),
      not_mem_listField (by decide) (not_mem_outlineAll fun e he => ih e he _)⟩
  | @use span m f newName hm hf hn =>
    have halias : '\n' ∉ (aliasLine indent newName).toList := by
      cases newName with
      | none => exact not_mem_outlineLine (by decide)
      | some n => exact not_mem_textField (by decide) (hn n rfl).isPlain
    simp only [outlineLines_use, List.forall_mem_cons]
    exact ⟨not_mem_outlineLine (by decide), not_mem_textField (by decide) hm.isPlain,
      not_mem_textField (by decide) hf.isPlain, halias, List.forall_mem_nil _⟩
  | program span _ ih =>
    rw [outlineLines, List.forall_mem_cons]
    exact ⟨not_mem_outlineLine (by decide),
      not_mem_listField (by decide) (not_mem_outlineAll fun e he => ih e he _)⟩

/-- Legible trees with the same outline are the same up to spans. -/
theorem bare_of_outline {n n' : Node} (hn : n.Legible) (hn' : n'.Legible)
    (h : n.outline = n'.outline) : n.bare = n'.bare := by
  have hne (n : Node) : outlineLines 0 n ≠ [] := by
    obtain ⟨ls, hls⟩ := outlineLines_eq 0 n
    rw [hls]
    exact List.cons_ne_nil _ _
  have hlines : outlineLines 0 n = outlineLines 0 n' :=
    eq_of_intercalate (hn.not_mem_outlineLines 0) (hn'.not_mem_outlineLines 0) (hne n) (hne n') h
  have happend : outlineLines 0 n ++ [] = outlineLines 0 n' ++ [] := by rw [hlines]
  exact (hn.listed n' 0 [] [] hn' happend).1

/-! ## Spans do not show -/

theorem length_bareAll (es : List Node) : (bareAll es).length = es.length := by
  induction es with
  | nil => rfl
  | cons e es ih => rw [bareAll, List.length_cons, List.length_cons, ih]

mutual

theorem graphFrom_bare : ∀ (n : Node) (id : Nat), graphFrom id n.bare = graphFrom id n
  | .literal _ _, _ | .name _ _, _ | .path _ _ _, _ => by
    simp only [bare, graphFrom, graphLabel]
  | .use _ _ _ none, _ | .use _ _ _ (some _), _ => by simp only [bare, graphFrom, graphLabel]
  | .blank _ .node, _ | .blank _ .expression, _ | .blank _ .statement, _ => by
    simp only [bare, graphFrom, graphLabel, kindName]
  | .unary _ _ a, _ | .binding _ _ a, _ | .expression _ a, _ => by
    simp only [bare, graphFrom, graphLabel, graphFrom_bare a]
  | .binary _ a _ b, _ | .index _ a b, _ => by
    simp only [bare, graphFrom, graphLabel, graphFrom_bare a, graphFrom_bare b]
  | .tuple _ es, _ | .block _ es, _ | .program _ es, _ => by
    simp only [bare, graphFrom, graphLabel, length_bareAll, graphBelow_bare es]
  | .call _ f es, _ => by
    simp only [bare, graphFrom, graphLabel, graphFrom_bare f, graphArguments_bare es]

theorem graphBelow_bare : ∀ (es : List Node) (parent id : Nat),
    graphBelow parent id (bareAll es) = graphBelow parent id es
  | [], _, _ => rfl
  | e :: es, _, _ => by
    simp only [bareAll, graphBelow, graphFrom_bare e, graphBelow_bare es]

theorem graphArguments_bare : ∀ (es : List Node) (parent id position : Nat),
    graphArguments parent id position (bareAll es) = graphArguments parent id position es
  | [], _, _, _ => rfl
  | e :: es, _, _, _ => by
    simp only [bareAll, graphArguments, graphFrom_bare e, graphArguments_bare es]

end

mutual

theorem outlineLines_bare : ∀ (n : Node) (indent : Nat),
    outlineLines indent n.bare = outlineLines indent n
  | .literal _ _, _ | .name _ _, _ | .path _ _ _, _ => by simp only [bare, outlineLines]
  | .use _ _ _ _, _ => by simp only [bare, outlineLines_use]
  | .blank _ .node, _ | .blank _ .expression, _ | .blank _ .statement, _ => by
    simp only [bare, outlineLines, kindName]
  | .unary _ _ a, _ | .binding _ _ a, _ | .expression _ a, _ => by
    simp only [bare, outlineLines, outlineLines_bare a]
  | .binary _ a _ b, _ | .index _ a b, _ => by
    simp only [bare, outlineLines, outlineLines_bare a, outlineLines_bare b]
  | .tuple _ es, _ | .block _ es, _ | .program _ es, _ => by
    simp only [bare, outlineLines, outlineAll_bare es]
  | .call _ f es, _ => by
    simp only [bare, outlineLines, outlineLines_bare f, outlineAll_bare es]

theorem outlineAll_bare : ∀ (es : List Node) (indent : Nat),
    outlineAll indent (bareAll es) = outlineAll indent es
  | [], _ => rfl
  | e :: es, _ => by simp only [bareAll, outlineAll, outlineLines_bare e, outlineAll_bare es]

end

end Node

/-! ## Programs -/

namespace Program

theorem bare_eq_iff {p q : Program} : p.bare = q.bare ↔ p.node.bare = q.node.bare := by
  simp only [bare, node, Node.bare, mk.injEq, Node.program.injEq, true_and]

/-- Programs that are read from source texts have the same text as graphs, or as outlines, if and only
if they are the same up to spans. -/
theorem rendered_eq_iff {limit limit' : Nat} {source source' : String} {p q : Program}
    (hp : ofSourceWithin limit source = .ok p) (hq : ofSourceWithin limit' source' = .ok q) :
    (p.node.graph.text Graph.defaultName = q.node.graph.text Graph.defaultName ↔
      p.bare = q.bare) ∧
    (p.node.outline = q.node.outline ↔ p.bare = q.bare) := by
  have hp := legible_of_ofSourceWithin hp
  have hq := legible_of_ofSourceWithin hq
  rw [bare_eq_iff]
  refine ⟨⟨fun h => ?_, fun h => ?_⟩, ⟨fun h => ?_, fun h => ?_⟩⟩
  · exact Node.bare_of_graph hp hq (Graph.eq_of_text (by decide) h)
  · rw [Node.graph, Node.graph, ← Node.graphFrom_bare p.node, h, Node.graphFrom_bare]
  · exact Node.bare_of_outline hp hq h
  · rw [Node.outline, Node.outline, ← Node.outlineLines_bare p.node, h, Node.outlineLines_bare]

/-- What tells a program is not how it is laid out, and not its labels alone: `f(g(y), z)` and
`f(g(y, z))` have the same labels in the same order. -/
theorem rendered_eq_iff_calls :
    ∃ p q r, ofSourceWithin 9 "let x = f(g(y), z);" = .ok p ∧
      ofSourceWithin 9 "x=f( (g)(y) ,z,) // as before" = .ok q ∧
      ofSourceWithin 9 "x = f(g(y, z))" = .ok r ∧
      p.bare = q.bare ∧ p.node.outline = q.node.outline ∧
      p.node.graph.labels = r.node.graph.labels ∧ p.bare ≠ r.bare ∧
      p.node.graph.text Graph.defaultName ≠ r.node.graph.text Graph.defaultName := by
  have hread (source : String) (h : (ofSourceWithin 9 source).toOption.isSome = true) :
      ∃ p, ofSourceWithin 9 source = .ok p := by
    cases hp : ofSourceWithin 9 source with
    | ok p => exact ⟨p, rfl⟩
    | error f => rw [hp] at h; cases h
  obtain ⟨p, hp⟩ := hread "let x = f(g(y), z);" (by decide +kernel)
  obtain ⟨q, hq⟩ := hread "x=f( (g)(y) ,z,) // as before" (by decide +kernel)
  obtain ⟨r, hr⟩ := hread "x = f(g(y, z))" (by decide +kernel)
  have hsame : (ofSourceWithin 9 "let x = f(g(y), z);").toOption.map (·.node.outline) =
      (ofSourceWithin 9 "x=f( (g)(y) ,z,) // as before").toOption.map (·.node.outline) := by
    decide +kernel
  have hother : (ofSourceWithin 9 "let x = f(g(y), z);").toOption.map (·.node.outline) ≠
      (ofSourceWithin 9 "x = f(g(y, z))").toOption.map (·.node.outline) := by
    decide +kernel
  have hlabels : (ofSourceWithin 9 "let x = f(g(y), z);").toOption.map (·.node.graph.labels) =
      (ofSourceWithin 9 "x = f(g(y, z))").toOption.map (·.node.graph.labels) := by
    decide +kernel
  rw [hp, hq] at hsame
  rw [hp, hr] at hother hlabels
  have hbare : p.bare = q.bare := (rendered_eq_iff hp hq).2.1 (Option.some.inj hsame)
  have hne : p.bare ≠ r.bare := fun h => hother (congrArg some ((rendered_eq_iff hp hr).2.2 h))
  exact ⟨p, q, r, hp, hq, hr, hbare, Option.some.inj hsame, Option.some.inj hlabels, hne,
    fun h => hne ((rendered_eq_iff hp hr).1.1 h)⟩

end Program

end Scriptlet
