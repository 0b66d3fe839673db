import Scriptlet.Proofs.Spelling

/-!
# Written programs are read back

The tokens that a well-formed program is written with are read to the same program, up to spans. So the
programs that come from source text are exactly the well-formed ones.

* `Reads limit r ks Q`: from `r`, tokens of the kinds `ks` lead to a state in `Q`.
* `readable_of_isExpression`, `readableStatement_of_isStatement`: what a well-formed tree is written with
  leads from before it to after it.
* `Program.ofSourceWithin_wellFormed`: what is read is well formed, and what is well formed is read from its
  text.
-/

namespace Scriptlet

/-! ## Trees without spans -/

namespace Node

mutual

/-- A tree without its spans. -/
@[simp] def bare : Node → Node
  | .literal _ v => .literal none v
  | .name _ n => .name none n
  | .unary _ op a => .unary none op (bare a)
  | .binary _ a op b => .binary none (bare a) op (bare b)
  | .tuple _ es => .tuple none (bareAll es)
  | .index _ a b => .index none (bare a) (bare b)
  | .path _ m f => .path none m f
  | .call _ f es => .call none (bare f) (bareAll es)
  | .binding _ n a => .binding none n (bare a)
  | .expression _ a => .expression none (bare a)
  | .block _ es => .block none (bareAll es)
  | .use _ m f n => .use none m f n
  | .program _ es => .program none (bareAll es)
  | .blank _ b => .blank none b

/-- Several trees without their spans. -/
@[simp] def bareAll : List Node → List Node
  | [] => []
  | e :: es => bare e :: bareAll es

end

end Node

/-- A program without its spans. -/
def Program.bare (p : Program) : Program := ⟨none, Node.bareAll p.statements⟩

/-! ## Runs by the kinds of their tokens -/

namespace Reader

open Scriptlet.Node

/-- From `r`, all tokens of the kinds `ks` lead to a state in `Q`. -/
def Reads (limit : Nat) (r : Reader) (ks : List Token.Kind) (Q : Reader → Prop) : Prop :=
  ∀ ts : List Token, ts.map (·.kind) = ks → ∃ r', Leads limit r ts r' ∧ Q r'

namespace Reads

variable {limit : Nat} {r : Reader} {k : Token.Kind} {ks ks' : List Token.Kind}
  {P Q : Reader → Prop}

theorem done (h : Q r) : Reads limit r [] Q := by
  intro ts hts
  rw [List.map_eq_nil_iff.1 hts]
  exact ⟨r, fun _ => rfl, h⟩

theorem cons (h : ∀ t : Token, t.kind = k → ∃ r', Leads limit r [t] r' ∧ Reads limit r' ks Q) :
    Reads limit r (k :: ks) Q := by
  intro ts hts
  obtain ⟨t, rest, rfl, ht, hrest⟩ := List.map_eq_cons_iff.1 hts
  obtain ⟨r', hfirst, hr'⟩ := h t ht
  obtain ⟨r'', hleads, hQ⟩ := hr' rest hrest
  exact ⟨r'', hfirst.trans hleads, hQ⟩

theorem append (h : Reads limit r ks P) (h' : ∀ r', P r' → Reads limit r' ks' Q) :
    Reads limit r (ks ++ ks') Q := by
  intro ts hts
  obtain ⟨first, rest, rfl, hfirst, hrest⟩ := List.map_eq_append_iff.1 hts
  obtain ⟨r', hleads, hP⟩ := h first hfirst
  obtain ⟨r'', hleads', hQ⟩ := h' r' hP rest hrest
  exact ⟨r'', hleads.trans hleads', hQ⟩

end Reads

/-! ## Single tokens -/

section Tokens

variable {limit : Nat} {last : Span} {done : List Node} {blocks : List OpenBlock} {t : Token}
  {p : Phrase}

/-- What a token of a known kind does. -/
theorem Leads.of_kind {done' : List Node} {blocks' : List OpenBlock} {mode mode' : Mode}
    {k : Token.Kind} (ht : t.kind = k) (hk : k ≠ .eof)
    (h : take limit ⟨last, done, blocks, mode⟩ ⟨k, t.lexeme, t.span⟩ =
      .ok ⟨last, done', blocks', mode'⟩) :
    Leads limit ⟨last, done, blocks, mode⟩ [t] ⟨t.span, done', blocks', mode'⟩ := by
  subst ht
  exact Leads.step hk h

/-- A parenthesis after the only expression of a group. -/
theorem leads_closeGroup (ht : t.kind = .symbol .closeParen) (start : Span)
    (ws : List Pending) (e : Node) :
    Leads limit ⟨last, done, blocks, .complete { p.enter (.group start) with pending := ws } e⟩ [t]
      ⟨t.span, done, blocks, .complete p (reduce 0 ws e).2⟩ :=
  Leads.of_kind ht nofun rfl

/-- A binary operator after an operand that no operator waits for. -/
theorem leads_operator {s : Symbol} {op : BinaryOperator} (ht : t.kind = .symbol s)
    (hs : s.binary? = some op) (brackets : List (Bracket × List Pending)) (hd : Head) (e : Node) :
    Leads limit ⟨last, done, blocks, .complete ⟨[], brackets, hd⟩ e⟩ [t]
      ⟨t.span, done, blocks, .operand ⟨[.binary e op], brackets, hd⟩⟩ := by
  refine Leads.of_kind ht nofun ?_
  cases s <;> cases hs <;> rfl

theorem leads_name {n : String} (ht : t.kind = .ident n) (p : Phrase) :
    Leads limit ⟨last, done, blocks, .operand p⟩ [t] ⟨t.span, done, blocks, .name p t.span n⟩ :=
  Leads.of_kind ht nofun rfl

/-- A parenthesis after a name that is alone in a group. -/
theorem leads_closeName (ht : t.kind = .symbol .closeParen) (start place : Span) (n : String) :
    Leads limit ⟨last, done, blocks, .name (p.enter (.group start)) place n⟩ [t]
      ⟨t.span, done, blocks, .complete p (.name (some place) n)⟩ :=
  Leads.of_kind ht nofun rfl

/-- A parenthesis after a name opens a call. -/
theorem leads_callName (ht : t.kind = .symbol .openParen) (place : Span) (n : String)
    (h : blocks.length + p.levels + 1 ≤ limit) :
    Leads limit ⟨last, done, blocks, .name p place n⟩ [t]
      ⟨t.span, done, blocks, .operand (p.enter (.call (.name (some place) n) []))⟩ := by
  refine Leads.of_kind ht nofun (deepen_of_le ?_ _ _)
  rw [Phrase.levels_enter]
  omega

theorem leads_colons (ht : t.kind = .symbol .doubleColon) (place : Span) (m : String) :
    Leads limit ⟨last, done, blocks, .name p place m⟩ [t]
      ⟨t.span, done, blocks, .pathSymbol p place m⟩ :=
  Leads.of_kind ht nofun rfl

theorem leads_pathSymbol {f : String} (ht : t.kind = .ident f) (place : Span) (m : String) :
    Leads limit ⟨last, done, blocks, .pathSymbol p place m⟩ [t]
      ⟨t.span, done, blocks, .pathCall p ⟨place.start, t.span.stop⟩ m f⟩ :=
  Leads.of_kind ht nofun rfl

/-- A parenthesis after a path opens a call. -/
theorem leads_callPath (ht : t.kind = .symbol .openParen) (place : Span) (m f : String)
    (h : blocks.length + p.levels + 1 ≤ limit) :
    Leads limit ⟨last, done, blocks, .pathCall p place m f⟩ [t]
      ⟨t.span, done, blocks, .operand (p.enter (.call (.path (some place) m f) []))⟩ := by
  refine Leads.of_kind ht nofun (deepen_of_le ?_ _ _)
  rw [Phrase.levels_enter]
  omega

/-- A comma after an argument. -/
theorem leads_argumentComma (ht : t.kind = .symbol .comma) (f : Node) (acc : List Node) (e : Node) :
    Leads limit ⟨last, done, blocks, .complete (p.enter (.call f acc)) e⟩ [t]
      ⟨t.span, done, blocks, .operand (p.enter (.call f (e :: acc)))⟩ :=
  Leads.of_kind ht nofun rfl

/-- A parenthesis after the arguments and a comma, or right after the opening one. -/
theorem leads_closeCall (ht : t.kind = .symbol .closeParen) (f : Node) (acc : List Node) :
    Leads limit ⟨last, done, blocks, .operand (p.enter (.call f acc))⟩ [t]
      ⟨t.span, done, blocks, .complete p
        (.call (Span.between f.span (some t.span)) f acc.reverse)⟩ :=
  Leads.of_kind ht nofun rfl

theorem leads_openBracket (ht : t.kind = .symbol .openBracket) (e : Node)
    (h : blocks.length + p.levels + 1 ≤ limit) :
    Leads limit ⟨last, done, blocks, .complete p e⟩ [t]
      ⟨t.span, done, blocks, .operand (p.enter (.index e))⟩ := by
  refine Leads.of_kind ht nofun (deepen_of_le ?_ _ _)
  rw [Phrase.levels_enter]
  omega

theorem leads_closeBracket (ht : t.kind = .symbol .closeBracket) (object e : Node) :
    Leads limit ⟨last, done, blocks, .complete (p.enter (.index object)) e⟩ [t]
      ⟨t.span, done, blocks, .complete p
        (.index (Span.between object.span (some t.span)) object e)⟩ :=
  Leads.of_kind ht nofun rfl

/-- A semicolon after the expression of a statement. -/
theorem leads_semicolon (ht : t.kind = .symbol .semicolon) (hd : Head) (e : Node) :
    Leads limit ⟨last, done, blocks, .complete ⟨[], [], hd⟩ e⟩ [t]
      ⟨t.span, hd.close e (Span.between (some hd.start) (some t.span)) :: done, blocks,
        .statement⟩ :=
  Leads.of_kind ht nofun rfl

/-- A parenthesis where a statement is due opens an expression. -/
theorem leads_statementParen (ht : t.kind = .symbol .openParen) (h : blocks.length + 1 ≤ limit) :
    Leads limit ⟨last, done, blocks, .statement⟩ [t]
      ⟨t.span, done, blocks,
        .operand (Phrase.enter ⟨[], [], .expression t.span⟩ (.group t.span))⟩ :=
  Leads.of_kind ht nofun (deepen_of_le h _ _)

theorem leads_openBrace (ht : t.kind = .symbol .openBrace) (h : blocks.length + 1 ≤ limit) :
    Leads limit ⟨last, done, blocks, .statement⟩ [t]
      ⟨t.span, [], ⟨t.span, done⟩ :: blocks, .statement⟩ :=
  Leads.of_kind ht nofun (deepen_of_le h _ _)

theorem leads_closeBrace (ht : t.kind = .symbol .closeBrace) (start : Span) (before : List Node) :
    Leads limit ⟨last, done, ⟨start, before⟩ :: blocks, .statement⟩ [t]
      ⟨t.span, .block (Span.between (some start) (some t.span)) done.reverse :: before, blocks,
        .statement⟩ :=
  Leads.of_kind ht nofun rfl

end Tokens

/-! ## Expressions -/

section

variable {limit : Nat} {done : List Node} {blocks : List OpenBlock}

/-- With room for as many levels as there are tokens, what `e` is written with is read to `e`, up to
spans, where an operand is due. -/
def Readable (limit : Nat) (done : List Node) (blocks : List OpenBlock) (e : Node) : Prop :=
  ∀ (last : Span) (p : Phrase), blocks.length + p.levels + e.kinds.length ≤ limit →
    Reads limit ⟨last, done, blocks, .operand p⟩ e.kinds fun r =>
      ∃ last' e', r = ⟨last', done, blocks, .complete p e'⟩ ∧ e'.bare = e.bare

/-- The elements of a list, in whatever bracket. -/
theorem reads_items (p : Phrase) (bracket : List Node → Bracket)
    (hcomma : ∀ (last : Span) (acc : List Node) (e : Node) (t : Token), t.kind = .symbol .comma →
      Leads limit ⟨last, done, blocks, .complete (p.enter (bracket acc)) e⟩ [t]
        ⟨t.span, done, blocks, .operand (p.enter (bracket (e :: acc)))⟩)
    {es : List Node} (hes : ∀ e ∈ es, Readable limit done blocks e) (last : Span) (acc : List Node)
    (hroom : blocks.length + p.levels + 1 + (itemKinds es).length ≤ limit) :
    Reads limit ⟨last, done, blocks, .operand (p.enter (bracket acc))⟩ (itemKinds es) fun r =>
      ∃ last' es', r = ⟨last', done, blocks, .operand (p.enter (bracket (es'.reverse ++ acc)))⟩ ∧
        bareAll es' = bareAll es := by
  induction es generalizing last acc with
  | nil => exact .done ⟨last, [], rfl, rfl⟩
  | cons e es ih =>
    obtain ⟨he, hrest⟩ := List.forall_mem_cons.1 hes
    simp only [itemKinds, List.length_append, List.length_cons] at hroom ⊢
    refine (he last (p.enter (bracket acc)) (by rw [Phrase.levels_enter]; omega)).append ?_
    rintro _ ⟨last', e', rfl, he'⟩
    refine .cons fun t ht => ⟨_, hcomma last' acc e' t ht, ?_⟩
    intro ts hts
    obtain ⟨_, hleads, last'', es', rfl, hes'⟩ := ih hrest t.span (e' :: acc) (by omega) ts hts
    refine ⟨_, hleads, last'', e' :: es', ?_, ?_⟩
    · rw [List.reverse_cons, List.append_assoc, List.singleton_append]
    · rw [bareAll, bareAll, he', hes']

/-- What a callee and the parenthesis after it are written with leads into the call. -/
theorem reads_callee {named : String → Prop} {f : Node} (hf : f.IsCallee named) (last : Span)
    {p : Phrase} (hroom : blocks.length + p.levels + 1 ≤ limit) {ks : List Token.Kind}
    {Q : Reader → Prop}
    (h : ∀ (last' : Span) (f' : Node), f'.bare = f.bare →
      Reads limit ⟨last', done, blocks, .operand (p.enter (.call f' []))⟩ ks Q) :
    Reads limit ⟨last, done, blocks, .operand p⟩
      (f.calleeKinds ++ .symbol .openParen :: ks) Q := by
  cases hf with
  | name span _ =>
    refine .cons fun t ht => ⟨_, leads_name ht p, ?_⟩
    refine .cons fun u hu => ⟨_, leads_callName hu t.span _ hroom, ?_⟩
    exact h u.span _ rfl
  | path span _ _ =>
    refine .cons fun t ht => ⟨_, leads_name ht p, ?_⟩
    refine .cons fun u hu => ⟨_, leads_colons hu t.span _, ?_⟩
    refine .cons fun v hv => ⟨_, leads_pathSymbol hv t.span _, ?_⟩
    refine .cons fun w hw => ⟨_, leads_callPath hw _ _ _ hroom, ?_⟩
    exact h w.span _ rfl

theorem readable_literal (span : Option Span) {v : Value} {kind : Token.Kind}
    (hkind : (∃ n : Nat, kind = .int n ∧ v = .int n) ∨ (∃ s, kind = .str s ∧ v = .str s) ∨
      ∃ b, kind = .bool b ∧ v = .bool b)
    (hkinds : (Node.literal span v).kinds = [kind]) : Readable limit done blocks (.literal span v) := by
  intro last p _
  rw [hkinds]
  refine .cons fun t ht => ⟨_, leads_literal ht hkind p, ?_⟩
  exact .done ⟨_, _, rfl, rfl⟩

theorem readable_name (span : Option Span) (n : String) :
    Readable limit done blocks (.name span n) := by
  intro last p hroom
  simp only [kinds, List.length_cons] at hroom ⊢
  refine .cons fun t ht => ⟨_, leads_openParen ht p (by omega), ?_⟩
  refine .cons fun u hu => ⟨_, leads_name hu _, ?_⟩
  refine .cons fun c hc => ⟨_, leads_closeName hc t.span u.span n, ?_⟩
  exact .done ⟨_, _, rfl, rfl⟩

theorem readable_unary (span : Option Span) {s : Symbol} (hs : s.isUnary = true) {a : Node}
    (ha : Readable limit done blocks a) : Readable limit done blocks (.unary span s.text a) := by
  intro last p hroom
  simp only [kinds, List.length_cons, List.length_append, Symbol.ofText_text] at hroom ⊢
  refine .cons fun t ht => ⟨_, leads_openParen ht p (by omega), ?_⟩
  have henter := Phrase.levels_enter p (.group t.span)
  refine .cons fun u hu => ⟨_, leads_sign hu hs (p.enter (.group t.span)) (by omega), ?_⟩
  refine (ha u.span { p.enter (.group t.span) with pending := [.unary u.span s] } ?_).append ?_
  · have hlevels : Phrase.levels { p.enter (.group t.span) with pending := [.unary u.span s] } =
        (p.enter (.group t.span)).levels + 1 := Phrase.levels_unary u.span s [] _ _
    omega
  rintro _ ⟨last', a', rfl, ha'⟩
  refine .cons fun c hc => ⟨_, leads_closeGroup hc t.span _ a', .done ⟨_, _, rfl, ?_⟩⟩
  simp only [reduce, Nat.zero_le, if_true, Pending.close, bare, ha']

theorem readable_binary (span : Option Span) (op : BinaryOperator) {a b : Node}
    (ha : Readable limit done blocks a) (hb : Readable limit done blocks b) :
    Readable limit done blocks (.binary span a op.text b) := by
  intro last p hroom
  simp only [kinds, List.length_cons, List.length_append] at hroom ⊢
  refine .cons fun t ht => ⟨_, leads_openParen ht p (by omega), ?_⟩
  have henter := Phrase.levels_enter p (.group t.span)
  refine (ha t.span (p.enter (.group t.span)) (by omega)).append ?_
  rintro _ ⟨last', a', rfl, ha'⟩
  refine .cons fun u hu => ⟨_, leads_operator hu (Symbol.binary?_ofText op) _ _ a', ?_⟩
  refine (hb u.span { p.enter (.group t.span) with pending := [.binary a' op] } ?_).append ?_
  · -- an operator that waits for its right operand opens no level
    have hlevels : Phrase.levels { p.enter (.group t.span) with pending := [.binary a' op] } =
        (p.enter (.group t.span)).levels := rfl
    omega
  rintro _ ⟨last'', b', rfl, hb'⟩
  refine .cons fun c hc => ⟨_, leads_closeGroup hc t.span _ b', .done ⟨_, _, rfl, ?_⟩⟩
  simp only [reduce, Nat.zero_le, if_true, Pending.close, bare, ha', hb']

theorem readable_tuple (span : Option Span) {es : List Node}
    (hes : ∀ e ∈ es, Readable limit done blocks e) : Readable limit done blocks (.tuple span es) := by
  intro last p hroom
  simp only [kinds, List.length_cons, List.length_append] at hroom ⊢
  refine .cons fun t ht => ⟨_, leads_openParen ht p (by omega), ?_⟩
  have hitems := reads_items p (opened t.span)
    (fun _ acc e c hc => leads_comma hc t.span acc p.pending [] e) hes t.span [] (by omega)
  refine hitems.append ?_
  rintro _ ⟨last', es', rfl, hes'⟩
  refine .cons fun c hc => ⟨_, leads_closeParen_of_operand hc t.span _ p.pending, ?_⟩
  refine .done ⟨_, _, rfl, ?_⟩
  rw [List.append_nil, List.reverse_reverse, bare, bare, hes']

theorem readable_index (span : Option Span) {a b : Node} (ha : Readable limit done blocks a)
    (hb : Readable limit done blocks b) : Readable limit done blocks (.index span a b) := by
  intro last p hroom
  simp only [kinds, List.length_cons, List.length_append] at hroom ⊢
  refine (ha last p (by omega)).append ?_
  rintro _ ⟨last', a', rfl, ha'⟩
  refine .cons fun t ht => ⟨_, leads_openBracket ht a' (by omega), ?_⟩
  have henter := Phrase.levels_enter p (.index a')
  refine (hb t.span (p.enter (.index a')) (by omega)).append ?_
  rintro _ ⟨last'', b', rfl, hb'⟩
  refine .cons fun c hc => ⟨_, leads_closeBracket hc a' b', .done ⟨_, _, rfl, ?_⟩⟩
  rw [bare, bare, ha', hb']

theorem readable_call {named : String → Prop} (span : Option Span) {f : Node}
    (hf : f.IsCallee named) {es : List Node} (hes : ∀ e ∈ es, Readable limit done blocks e) :
    Readable limit done blocks (.call span f es) := by
  intro last p hroom
  simp only [kinds, List.length_cons, List.length_append] at hroom ⊢
  refine reads_callee hf last (by omega) fun last' f' hf' => ?_
  have hitems := reads_items p (.call f')
    (fun _ acc e c hc => leads_argumentComma hc f' acc e) hes last' [] (by omega)
  refine hitems.append ?_
  rintro _ ⟨last'', es', rfl, hes'⟩
  refine .cons fun c hc => ⟨_, leads_closeCall hc f' _, .done ⟨_, _, rfl, ?_⟩⟩
  rw [List.append_nil, List.reverse_reverse, bare, bare, hf', hes']

theorem readable_of_isExpression {named : String → Prop} {e : Node} (he : e.IsExpression named) :
    Readable limit done blocks e := by
  induction he with
  | int span n => exact readable_literal span (.inl ⟨n, rfl, rfl⟩) rfl
  | str span s => exact readable_literal span (.inr (.inl ⟨s, rfl, rfl⟩)) rfl
  | bool span b => exact readable_literal span (.inr (.inr ⟨b, rfl, rfl⟩)) rfl
  | name span _ => exact readable_name span _
  | unary span hs _ ih => exact readable_unary span hs ih
  | binary span op _ _ iha ihb => exact readable_binary span op iha ihb
  | tuple span _ ih => exact readable_tuple span ih
  | index span _ _ iha ihb => exact readable_index span iha ihb
  | call span hf _ ih => exact readable_call span hf ih

end

/-! ## Statements -/

section

variable {limit : Nat}

/-- With room for as many levels as there are tokens, what `s` is written with is read to `s`, up to
spans, where a statement is due. -/
def ReadableStatement (limit : Nat) (s : Node) : Prop :=
  ∀ (last : Span) (done : List Node) (blocks : List OpenBlock),
    blocks.length + s.kinds.length ≤ limit →
    Reads limit ⟨last, done, blocks, .statement⟩ s.kinds fun r =>
      ∃ last' s', r = ⟨last', s' :: done, blocks, .statement⟩ ∧ s'.bare = s.bare

theorem reads_statements {ss : List Node} (hss : ∀ s ∈ ss, ReadableStatement limit s) (last : Span)
    (done : List Node) (blocks : List OpenBlock)
    (hroom : blocks.length + (kindsAll ss).length ≤ limit) :
    Reads limit ⟨last, done, blocks, .statement⟩ (kindsAll ss) fun r =>
      ∃ last' ss', r = ⟨last', ss'.reverse ++ done, blocks, .statement⟩ ∧
        bareAll ss' = bareAll ss := by
  induction ss generalizing last done with
  | nil => exact .done ⟨last, [], rfl, rfl⟩
  | cons s ss ih =>
    obtain ⟨hs, hrest⟩ := List.forall_mem_cons.1 hss
    simp only [kindsAll, List.length_append] at hroom ⊢
    refine (hs last done blocks (by omega)).append ?_
    rintro _ ⟨last', s', rfl, hs'⟩ ts hts
    obtain ⟨_, hleads, last'', ss', rfl, hss'⟩ := ih hrest last' (s' :: done) (by omega) ts hts
    refine ⟨_, hleads, last'', s' :: ss', ?_, ?_⟩
    · rw [List.reverse_cons, List.append_assoc, List.singleton_append]
    · rw [bareAll, bareAll, hs', hss']

theorem readable_expression (span : Option Span) {e : Node}
    (he : ∀ done blocks, Readable limit done blocks e) :
    ReadableStatement limit (.expression span e) := by
  intro last done blocks hroom
  simp only [kinds, List.length_cons, List.length_append] at hroom ⊢
  refine .cons fun t ht => ⟨_, leads_statementParen ht (by omega), ?_⟩
  have hempty : Phrase.levels ⟨[], [], .expression t.span⟩ = 0 := rfl
  have hlevels := Phrase.levels_enter ⟨[], [], .expression t.span⟩ (.group t.span)
  refine (he done blocks t.span _ (by omega)).append ?_
  rintro _ ⟨last', e', rfl, he'⟩
  refine .cons fun c hc => ⟨_, leads_closeGroup hc t.span [] e', ?_⟩
  refine .cons fun u hu => ⟨_, leads_semicolon hu (.expression t.span) e', .done ⟨_, _, rfl, ?_⟩⟩
  rw [Head.close, bare, bare, he']

theorem readable_binding (span : Option Span) (n : String) {e : Node}
    (he : ∀ done blocks, Readable limit done blocks e) :
    ReadableStatement limit (.binding span n e) := by
  intro last done blocks hroom
  simp only [kinds, List.length_cons, List.length_append] at hroom ⊢
  refine .cons fun t ht => ⟨⟨t.span, done, blocks, .letName t.span⟩, Leads.of_kind ht nofun rfl, ?_⟩
  refine .cons fun u hu =>
    ⟨⟨u.span, done, blocks, .letEquals t.span n⟩, Leads.of_kind hu nofun rfl, ?_⟩
  refine .cons fun v hv =>
    ⟨⟨v.span, done, blocks, .operand ⟨[], [], .binding t.span n⟩⟩, Leads.of_kind hv nofun rfl, ?_⟩
  have hempty : Phrase.levels ⟨[], [], .binding t.span n⟩ = 0 := rfl
  refine (he done blocks v.span ⟨[], [], .binding t.span n⟩ (by omega)).append ?_
  rintro _ ⟨last', e', rfl, he'⟩
  refine .cons fun c hc => ⟨_, leads_semicolon hc (.binding t.span n) e', .done ⟨_, _, rfl, ?_⟩⟩
  rw [Head.close, bare, bare, he']

theorem readable_block (span : Option Span) {ss : List Node}
    (hss : ∀ s ∈ ss, ReadableStatement limit s) : ReadableStatement limit (.block span ss) := by
  intro last done blocks hroom
  simp only [kinds, List.length_cons, List.length_append] at hroom ⊢
  refine .cons fun t ht => ⟨_, leads_openBrace ht (by omega), ?_⟩
  refine (reads_statements hss t.span [] _ (by rw [List.length_cons]; omega)).append ?_
  rintro _ ⟨last', ss', rfl, hss'⟩
  refine .cons fun c hc => ⟨_, leads_closeBrace hc t.span done, .done ⟨_, _, rfl, ?_⟩⟩
  rw [List.append_nil, List.reverse_reverse, bare, bare, hss']

/-- The module and the symbol of a `use` statement. -/
theorem reads_use {last : Span} {done : List Node} {blocks : List OpenBlock} {m f : String}
    {ks : List Token.Kind} {Q : Reader → Prop}
    (h : ∀ start last' : Span, Reads limit ⟨last', done, blocks, .useTail start m f⟩ ks Q) :
    Reads limit ⟨last, done, blocks, .statement⟩
      (.keyword .useWord :: .ident m :: .symbol .doubleColon :: .ident f :: ks) Q := by
  refine .cons fun t ht => ⟨⟨t.span, done, blocks, .useModule t.span⟩, Leads.of_kind ht nofun rfl, ?_⟩
  refine .cons fun u hu => ⟨⟨u.span, done, blocks, .useColons t.span m⟩, Leads.of_kind hu nofun rfl, ?_⟩
  refine .cons fun v hv => ⟨⟨v.span, done, blocks, .useSymbol t.span m⟩, Leads.of_kind hv nofun rfl, ?_⟩
  refine .cons fun w hw => ⟨⟨w.span, done, blocks, .useTail t.span m f⟩, Leads.of_kind hw nofun rfl, ?_⟩
  exact h t.span w.span

theorem readable_use (span : Option Span) (m f : String) (newName : Option String) :
    ReadableStatement limit (.use span m f newName) := by
  intro last done blocks _
  rw [kinds]
  refine reads_use fun start last' => ?_
  cases newName with
  | none =>
    refine .cons fun t ht => ⟨⟨t.span, .use (Span.between (some start) (some t.span)) m f none ::
      done, blocks, .statement⟩, Leads.of_kind ht nofun rfl, ?_⟩
    exact .done ⟨_, _, rfl, rfl⟩
  | some n =>
    refine .cons fun t ht =>
      ⟨⟨t.span, done, blocks, .useAlias start m f⟩, Leads.of_kind ht nofun rfl, ?_⟩
    refine .cons fun u hu =>
      ⟨⟨u.span, done, blocks, .useDone start m f n⟩, Leads.of_kind hu nofun rfl, ?_⟩
    refine .cons fun v hv => ⟨⟨v.span, .use (Span.between (some start) (some v.span)) m f
      (some n) :: done, blocks, .statement⟩, Leads.of_kind hv nofun rfl, ?_⟩
    exact .done ⟨_, _, rfl, rfl⟩

theorem readableStatement_of_isStatement {named : String → Prop} {s : Node}
    (hs : s.IsStatement named) : ReadableStatement limit s := by
  induction hs with
  | expression span he => exact readable_expression span fun _ _ => readable_of_isExpression he
  | binding span _ he => exact readable_binding span _ fun _ _ => readable_of_isExpression he
  | block span _ ih => exact readable_block span ih
  | use span _ _ _ => exact readable_use span _ _ _

end

end Reader

/-! ## Programs -/

namespace Program

open Scriptlet.Lexical Scriptlet.Node

/-- Tokens of the kinds that a well-formed program is written with are read to the program. -/
theorem read_of_kinds {named : String → Prop} {p : Program}
    (hp : ∀ s ∈ p.statements, s.IsStatement named) {limit : Nat} {tokens : List Token}
    (htokens : tokens.map (·.kind) = p.kinds ++ [.eof]) (hroom : p.kinds.length ≤ limit) :
    ∃ q, Program.read limit tokens = .ok q ∧ q.bare = p.bare := by
  obtain ⟨ts, ends, rfl, hts, hends⟩ := List.map_eq_append_iff.1 htokens
  obtain ⟨eof, rfl, heof⟩ := List.map_eq_singleton_iff.1 hends
  obtain ⟨first, rest, hfirst⟩ := List.exists_cons_of_ne_nil (List.concat_ne_nil eof ts)
  have hreadable : ∀ s ∈ p.statements, Reader.ReadableStatement limit s :=
    fun s hs => Reader.readableStatement_of_isStatement (hp s hs)
  have hlength : 0 + (kindsAll p.statements).length ≤ limit := by
    rw [Nat.zero_add]
    exact hroom
  obtain ⟨_, hleads, last, ss, rfl, hss⟩ :=
    Reader.reads_statements hreadable first.span [] [] hlength ts hts
  have hrun : (Reader.initial first.span).run limit (ts ++ [eof]) =
      .ok ⟨last, ss.reverse ++ [], [], .statement⟩ := by
    rw [Reader.initial, hleads]
    simp only [Reader.run, Reader.advance, Reader.take, Reader.statement, Reader.goto, heof,
      List.isEmpty_nil, if_true]
  refine ⟨⟨some ⟨first.span.start, last.stop⟩, ss⟩, ?_, ?_⟩
  · rw [hfirst] at hrun ⊢
    simp only [read, hrun, List.append_nil, List.reverse_reverse]
  · rw [Program.bare, Program.bare, hss]

/-- The names in a source text are words that are not reserved. -/
theorem isName_of_ofSource {source : String} {tokens : List Token}
    (h : Token.ofSource source = .ok tokens) {t : Token} (ht : t ∈ tokens) {n : String}
    (hn : t.kind = .ident n) : IsName n := by
  have heof : t.kind ≠ .eof := by
    rw [hn]
    exact nofun
  have hlexeme := (splits_of_ofSource h).lexeme_of_mem ht heof
  rw [hn] at hlexeme
  generalize t.lexeme.toList = text at hlexeme
  cases hlexeme with
  | reserved hr => simp [reservedWords] at hr
  | name hword hreserved =>
    refine ⟨?_, hreserved⟩
    rwa [String.toList_ofList]

/-- The programs that source texts are read to are the well-formed ones: whatever is read is well formed,
and a well-formed program is read from its text, up to spans, if the host can read as deep as the text
has tokens. -/
theorem ofSourceWithin_wellFormed :
    (∀ (limit : Nat) (source : String) (p : Program),
      ofSourceWithin limit source = .ok p → p.WellFormed) ∧
    ∀ p : Program, p.WellFormed → ∀ limit, p.kinds.length ≤ limit →
      ∃ q, ofSourceWithin limit p.text = .ok q ∧ q.bare = p.bare := by
  refine ⟨fun limit source p hp => ?_, fun p hp limit hroom => ?_⟩
  · unfold ofSourceWithin at hp
    cases htokens : Token.ofSource source with
    | error f =>
      rw [htokens] at hp
      cases hp
    | ok tokens =>
      cases hread : read limit tokens with
      | error fault =>
        simp only [htokens, hread] at hp
        cases hp
      | ok q =>
        simp only [htokens, hread] at hp
        cases hp
        exact isStatement_of_read (fun t ht n hn => isName_of_ofSource htokens ht hn) hread
  · obtain ⟨tokens, htokens, hkinds⟩ := ofSource_text hp
    obtain ⟨q, hread, hq⟩ := read_of_kinds hp hkinds hroom
    refine ⟨q, ?_, hq⟩
    simp only [ofSourceWithin, htokens, hread]

/-- A program with a path, a string that needs an escape, signs and operators that need parentheses, an
index into a tuple of one element and a new name in a block. -/
def wovenSample : Program :=
  ⟨none, [
    .block none [.use none "m" "f" (some "g")],
    .binding none "x" (.unary none "-" (.binary none (.literal none (.int 1)) "+"
      (.call none (.path none "m" "f") [.literal none (.str "a\"\n")]))),
    .expression none (.index none (.tuple none [.name none "x"])
      (.binary none (.literal none (.int 0)) "*" (.literal none (.bool true))))]⟩

theorem wovenSample_wellFormed : wovenSample.WellFormed := by
  have hname {n : String} (hword : IsWord n.toList) (hfree : ∀ w ∈ reservedWords, w.1 ≠ n) :
      IsName n := ⟨hword, fun kind hmem => hfree (n, kind) hmem rfl⟩
  have hm : IsName "m" := hname ⟨by decide, nofun⟩ (by decide)
  have hf : IsName "f" := hname ⟨by decide, nofun⟩ (by decide)
  have hg : IsName "g" := hname ⟨by decide, nofun⟩ (by decide)
  have hx : IsName "x" := hname ⟨by decide, nofun⟩ (by decide)
  have huse : IsStatement IsName (.use none "m" "f" (some "g")) :=
    .use none hm hf fun n hn => by rwa [← Option.some.inj hn]
  have hcall : IsExpression IsName (.call none (.path none "m" "f") [.literal none (.str "a\"\n")]) :=
    .call none (.path none hm hf) (List.forall_mem_singleton.2 (.str none _))
  have hindex : IsExpression IsName (.index none (.tuple none [.name none "x"])
      (.binary none (.literal none (.int 0)) "*" (.literal none (.bool true)))) :=
    .index none (.tuple none (List.forall_mem_singleton.2 (.name none hx)))
      (.binary none .mul (.int none 0) (.bool none true))
  unfold WellFormed wovenSample
  simp only [List.forall_mem_cons]
  refine ⟨.block none (List.forall_mem_singleton.2 huse), .binding none hx ?_,
    .expression none hindex, List.forall_mem_nil _⟩
  exact .unary (s := .minus) none rfl (.binary none .add (.int none 1) hcall)

/-- The sample is read back from its text, and what is read is well formed again. -/
theorem ofSourceWithin_wellFormed_wovenSample :
    wovenSample.text = "\x7b use m :: f as g ; \x7d let x = ( - ( 1 + m :: f ( \"a\\\"\\n\" , ) ) ) ; " ++
        "( ( ( x ) , ) [ ( 0 * true ) ] ) ; " ∧
      wovenSample.WellFormed ∧ wovenSample.kinds.length ≤ 50 ∧
      ∃ q, ofSourceWithin 50 wovenSample.text = .ok q ∧ q.bare = wovenSample.bare ∧
        q.WellFormed := by
  have hroom : wovenSample.kinds.length ≤ 50 := by decide
  obtain ⟨hread, hwritten⟩ := ofSourceWithin_wellFormed
  obtain ⟨q, hq, hbare⟩ := hwritten wovenSample wovenSample_wellFormed 50 hroom
  exact ⟨by decide +kernel, wovenSample_wellFormed, hroom, q, hq, hbare, hread 50 _ q hq⟩

end Program

end Scriptlet
