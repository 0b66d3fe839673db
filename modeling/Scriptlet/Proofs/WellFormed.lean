import Scriptlet.Proofs.Reading

/-!
# Trees that come from source text

The type of syntax trees lets any node stand anywhere; the reader builds trees of a narrower kind. They
are described here without the reader: which nodes are expressions, which are statements, which operators
they have and what may be called. The names in them are those of the tokens.

* `Node.IsExpression named`, `Node.IsStatement named`: well-formed trees whose names are all in `named`.
* `take_builds`: whatever is in the state of the reader is well formed, and a token keeps it so.
* `isStatement_of_read`: the statements of a program that is read are well formed.
-/

namespace Scriptlet

namespace Node

/-- What may stand before the arguments of a call. -/
inductive IsCallee (named : String → Prop) : Node → Prop
  | name (span : Option Span) {n : String} : named n → IsCallee named (.name span n)
  | path (span : Option Span) {m f : String} : named m → named f → IsCallee named (.path span m f)

/-- Well-formed expressions with names from `named`. Numbers have no sign, operators are those that can be
written, and a path stands nowhere but before the arguments of a call. -/
inductive IsExpression (named : String → Prop) : Node → Prop
  | int (span : Option Span) (n : Nat) : IsExpression named (.literal span (.int n))
  | str (span : Option Span) (s : String) : IsExpression named (.literal span (.str s))
  | bool (span : Option Span) (b : Bool) : IsExpression named (.literal span (.bool b))
  | name (span : Option Span) {n : String} : named n → IsExpression named (.name span n)
  | unary (span : Option Span) {s : Symbol} {a : Node} : s.isUnary = true → IsExpression named a →
      IsExpression named (.unary span s.text a)
  | binary (span : Option Span) (op : BinaryOperator) {a b : Node} : IsExpression named a →
      IsExpression named b → IsExpression named (.binary span a op.text b)
  | tuple (span : Option Span) {es : List Node} : (∀ e ∈ es, IsExpression named e) →
      IsExpression named (.tuple span es)
  | index (span : Option Span) {a b : Node} : IsExpression named a → IsExpression named b →
      IsExpression named (.index span a b)
  | call (span : Option Span) {f : Node} {es : List Node} : IsCallee named f →
      (∀ e ∈ es, IsExpression named e) → IsExpression named (.call span f es)

/-- Well-formed statements with names from `named`. -/
inductive IsStatement (named : String → Prop) : Node → Prop
  | expression (span : Option Span) {e : Node} : IsExpression named e →
      IsStatement named (.expression span e)
  | binding (span : Option Span) {n : String} {e : Node} : named n → IsExpression named e →
      IsStatement named (.binding span n e)
  | block (span : Option Span) {es : List Node} : (∀ e ∈ es, IsStatement named e) →
      IsStatement named (.block span es)
  | use (span : Option Span) {m f : String} {newName : Option String} : named m → named f →
      (∀ n ∈ newName, named n) → IsStatement named (.use span m f newName)

end Node

namespace Reader

/-! ## What the reader holds -/

/-- The operator can stand where it waits, and its left operand is whole. -/
def Pending.Formed (named : String → Prop) : Pending → Prop
  | .unary _ operator => operator.isUnary = true
  | .binary left _ => left.IsExpression named

/-- What was read inside of a bracket and before it is whole. -/
def Bracket.Formed (named : String → Prop) : Bracket → Prop
  | .group _ => True
  | .tuple _ items => ∀ e ∈ items, e.IsExpression named
  | .call callee arguments => callee.IsCallee named ∧ ∀ e ∈ arguments, e.IsExpression named
  | .index object => object.IsExpression named

/-- The name that is being bound is one of the names. -/
def Head.Formed (named : String → Prop) : Head → Prop
  | .expression _ => True
  | .binding _ name => named name

/-- All parts of a phrase are well formed. -/
structure Phrase.Formed (named : String → Prop) (p : Phrase) : Prop where
  pending : ∀ w ∈ p.pending, w.Formed named
  brackets : ∀ b ∈ p.brackets, b.1.Formed named ∧ ∀ w ∈ b.2, w.Formed named
  head : p.head.Formed named

/-- All that a mode remembers is well formed. -/
def Mode.Formed (named : String → Prop) : Mode → Prop
  | .statement | .letName _ | .useModule _ => True
  | .leadingName _ n | .letEquals _ n => named n
  | .useColons _ m | .useSymbol _ m => named m
  | .useTail _ m f | .useAlias _ m f => named m ∧ named f
  | .useDone _ m f n => named m ∧ named f ∧ named n
  | .operand p => p.Formed named
  | .name p _ n => p.Formed named ∧ named n
  | .pathSymbol p _ m => p.Formed named ∧ named m
  | .pathCall p _ m f => p.Formed named ∧ named m ∧ named f
  | .complete p e => p.Formed named ∧ e.IsExpression named

/-- The statements that were read are whole, and so is what the reader is in the middle of. -/
structure Formed (named : String → Prop) (r : Reader) : Prop where
  done : ∀ s ∈ r.done, s.IsStatement named
  blocks : ∀ b ∈ r.blocks, ∀ s ∈ b.before, s.IsStatement named
  mode : r.mode.Formed named

section

variable {named : String → Prop}

theorem Pending.Formed.close {w : Pending} {e : Node} (hw : w.Formed named)
    (he : e.IsExpression named) : (w.close e).IsExpression named := by
  cases w with
  | unary place operator => exact .unary _ hw he
  | binary left operator => exact .binary _ operator hw he

theorem formed_reduce (bound : Nat) {ws : List Pending} {e : Node}
    (hws : ∀ w ∈ ws, w.Formed named) (he : e.IsExpression named) :
    (∀ w ∈ (reduce bound ws e).1, w.Formed named) ∧ (reduce bound ws e).2.IsExpression named := by
  induction ws generalizing e with
  | nil => exact ⟨hws, he⟩
  | cons w ws ih =>
    obtain ⟨hw, hrest⟩ := List.forall_mem_cons.1 hws
    unfold reduce
    split_ifs
    · exact ih hrest (hw.close he)
    · exact ⟨hws, he⟩

namespace Phrase.Formed

variable {p : Phrase}

theorem enter (h : p.Formed named) {b : Bracket} (hb : b.Formed named) : (p.enter b).Formed named :=
  ⟨List.forall_mem_nil _, List.forall_mem_cons.2 ⟨⟨hb, h.pending⟩, h.brackets⟩, h.head⟩

theorem wait (h : p.Formed named) {w : Pending} {ws : List Pending} (hw : w.Formed named)
    (hws : ∀ w ∈ ws, w.Formed named) : ({ p with pending := w :: ws } : Phrase).Formed named :=
  ⟨List.forall_mem_cons.2 ⟨hw, hws⟩, h.brackets, h.head⟩

/-- The phrase around the innermost bracket. -/
theorem leave (h : p.Formed named) {b : Bracket} {outer : List Pending}
    {rest : List (Bracket × List Pending)} (hp : p.brackets = (b, outer) :: rest) :
    b.Formed named ∧ (Phrase.mk outer rest p.head).Formed named := by
  have hbrackets := h.brackets
  rw [hp] at hbrackets
  obtain ⟨⟨hb, houter⟩, hrest⟩ := List.forall_mem_cons.1 hbrackets
  exact ⟨hb, houter, hrest, h.head⟩

/-- The innermost bracket with more in it. -/
theorem next (h : p.Formed named) {b b' : Bracket} {outer : List Pending}
    {rest : List (Bracket × List Pending)} (hp : p.brackets = (b, outer) :: rest)
    (hb : b'.Formed named) : (Phrase.mk [] ((b', outer) :: rest) p.head).Formed named :=
  (h.leave hp).2.enter hb

end Phrase.Formed

/-! ## What a token does to it -/

/-- If the reader goes on, it is well formed. -/
def Builds (named : String → Prop) : Except Fault Reader → Prop
  | .ok r => r.Formed named
  | .error _ => True

theorem Formed.goto {r : Reader} (h : r.Formed named) {mode : Mode} (hmode : mode.Formed named) :
    (r.goto mode).Formed named :=
  ⟨h.done, h.blocks, hmode⟩

theorem Formed.add {r : Reader} (h : r.Formed named) {s : Node} (hs : s.IsStatement named) :
    (r.add s).Formed named :=
  ⟨List.forall_mem_cons.2 ⟨hs, h.done⟩, h.blocks, trivial⟩

theorem builds_reject (t : Token) (expected : Expected) : Builds named (reject t expected) := by
  unfold reject
  split
  · trivial
  · trivial

theorem builds_deepen {limit levels : Nat} {t : Token} {r : Reader} (h : r.Formed named) :
    Builds named (deepen limit t levels r) := by
  unfold deepen
  split_ifs
  · exact h
  · trivial

variable {r : Reader} {p : Phrase} {t : Token}

theorem operand_builds (limit : Nat) (hr : r.Formed named) (hp : p.Formed named)
    (ht : ∀ n, t.kind = .ident n → named n) : Builds named (r.operand limit p t) := by
  unfold operand
  split
  · exact hr.goto ⟨hp, .int _ _⟩
  · exact hr.goto ⟨hp, .str _ _⟩
  · exact hr.goto ⟨hp, .bool _ _⟩
  · next n hk => exact hr.goto ⟨hp, ht n hk⟩
  · exact builds_deepen (hr.goto (hp.enter trivial))
  · split
    · next hbrackets =>
      exact hr.goto ⟨(hp.leave hbrackets).2, .tuple _ (List.forall_mem_nil _)⟩
    · next hbrackets =>
      obtain ⟨hitems, houter⟩ := hp.leave hbrackets
      exact hr.goto ⟨houter, .tuple _ fun e he => hitems e (List.mem_reverse.1 he)⟩
    · next hbrackets =>
      obtain ⟨⟨hcallee, harguments⟩, houter⟩ := hp.leave hbrackets
      exact hr.goto ⟨houter, .call _ hcallee fun e he => harguments e (List.mem_reverse.1 he)⟩
    · exact builds_reject t _
  · split_ifs with hs
    · exact builds_deepen (hr.goto (hp.wait hs hp.pending))
    · exact builds_reject t _
  · exact builds_reject t _

theorem statement_builds (limit : Nat) (hr : r.Formed named)
    (ht : ∀ n, t.kind = .ident n → named n) : Builds named (r.statement limit t) := by
  unfold statement
  split
  · exact hr.goto trivial
  · exact builds_deepen ⟨List.forall_mem_nil _, List.forall_mem_cons.2 ⟨hr.done, hr.blocks⟩, trivial⟩
  · split
    · exact builds_reject t _
    · next b bs hblocks =>
      have hbefore := hr.blocks
      rw [hblocks] at hbefore
      obtain ⟨hb, hbs⟩ := List.forall_mem_cons.1 hbefore
      refine ⟨List.forall_mem_cons.2 ⟨.block _ fun s hs => ?_, hb⟩, hbs, trivial⟩
      exact hr.done s (List.mem_reverse.1 hs)
  · exact hr.goto trivial
  · exact hr.goto trivial
  · next n hk => exact hr.goto (ht n hk)
  · split_ifs
    · exact hr.goto trivial
    · exact builds_reject t _
  · exact operand_builds limit hr ⟨List.forall_mem_nil _, List.forall_mem_nil _, trivial⟩ ht

theorem terminate_builds (limit : Nat) (hr : r.Formed named) {start : Span}
    {make : Option Span → Node} (hmake : ∀ span, (make span).IsStatement named)
    (ht : ∀ n, t.kind = .ident n → named n) : Builds named (r.terminate limit start make t) := by
  unfold terminate
  split
  · exact hr.add (hmake _)
  · exact statement_builds limit (hr.add (hmake _)) ht
  · exact statement_builds limit (hr.add (hmake _)) ht
  · exact builds_reject t _

theorem settle_builds (limit : Nat) (hr : r.Formed named) (hp : p.Formed named) {e : Node}
    (he : e.IsExpression named) (ht : ∀ n, t.kind = .ident n → named n) :
    Builds named (r.settle limit p e t) := by
  have hall {es : List Node} (hes : ∀ e ∈ es, e.IsExpression named) :
      ∀ e' ∈ (e :: es).reverse, e'.IsExpression named := fun e' he' =>
    List.forall_mem_cons.2 ⟨he, hes⟩ e' (List.mem_reverse.1 he')
  unfold settle
  split
  · refine terminate_builds limit hr (fun span => ?_) ht
    cases hhead : p.head with
    | expression => exact .expression _ he
    | binding start name =>
      have hname := hp.head
      rw [hhead] at hname
      exact .binding _ hname he
  · next hbrackets =>
    split
    · exact hr.goto ⟨(hp.leave hbrackets).2, he⟩
    · exact hr.goto (hp.next hbrackets (List.forall_mem_singleton.2 he))
    · exact builds_reject t _
  · next hbrackets =>
    obtain ⟨hitems, houter⟩ := hp.leave hbrackets
    split
    · exact hr.goto ⟨houter, .tuple _ (hall hitems)⟩
    · exact hr.goto (hp.next hbrackets (List.forall_mem_cons.2 ⟨he, hitems⟩))
    · exact builds_reject t _
  · next hbrackets =>
    obtain ⟨⟨hcallee, harguments⟩, houter⟩ := hp.leave hbrackets
    split
    · exact hr.goto ⟨houter, .call _ hcallee (hall harguments)⟩
    · exact hr.goto (hp.next hbrackets ⟨hcallee, List.forall_mem_cons.2 ⟨he, harguments⟩⟩)
    · exact builds_reject t _
  · next hbrackets =>
    obtain ⟨hobject, houter⟩ := hp.leave hbrackets
    split
    · exact hr.goto ⟨houter, .index _ hobject he⟩
    · exact builds_reject t _

/-- A node that may be called is a name, or a path in front of its arguments. -/
theorem isCallee_of_isCallable {e : Node} (he : e.IsExpression named ∨ e.IsCallee named)
    (h : isCallable e = true) : e.IsCallee named := by
  rcases he with he | he
  · cases he with
    | name span hn => exact .name span hn
    | int | str | bool | unary | binary | tuple | index | call => cases h
  · exact he

/-- A path that is not called yet is no expression; only its parenthesis may come next. -/
theorem complete_builds (limit : Nat) (hr : r.Formed named) (hp : p.Formed named) {e : Node}
    (he : e.IsExpression named ∨ e.IsCallee named ∧ t.kind = .symbol .openParen)
    (ht : ∀ n, t.kind = .ident n → named n) : Builds named (r.complete limit p e t) := by
  have hwhole (hopen : t.kind ≠ .symbol .openParen) : e.IsExpression named :=
    he.resolve_right fun h => hopen h.2
  have hsettle (hopen : t.kind ≠ .symbol .openParen) :
      Builds named (r.settle limit p (reduce 0 p.pending e).2 t) :=
    settle_builds limit hr hp (formed_reduce 0 hp.pending (hwhole hopen)).2 ht
  unfold complete
  dsimp only
  split
  · split_ifs with hcallable
    · have hcallee := isCallee_of_isCallable (he.imp_right And.left) hcallable
      exact builds_deepen (hr.goto (hp.enter ⟨hcallee, List.forall_mem_nil _⟩))
    · trivial
  · next hk => exact builds_deepen (hr.goto (hp.enter (hwhole (by rw [hk]; nofun))))
  · next s hopen hbracket hk =>
    have hne : t.kind ≠ .symbol .openParen := by
      rw [hk]
      rintro ⟨⟩
      exact hopen rfl
    split
    · next operator hoperator =>
      obtain ⟨hws, hleft⟩ := formed_reduce operator.precedence hp.pending (hwhole hne)
      exact hr.goto (hp.wait hleft hws)
    · exact hsettle hne
  · next hopen _ _ => exact hsettle hopen

theorem afterName_builds (limit : Nat) (hr : r.Formed named) (hp : p.Formed named) (place : Span)
    {n : String} (hn : named n) (ht : ∀ n, t.kind = .ident n → named n) :
    Builds named (r.afterName limit p place n t) := by
  unfold afterName
  split
  · exact hr.goto ⟨hp, hn⟩
  · exact complete_builds limit hr hp (.inl (.name _ hn)) ht

/-- A token keeps the state of the reader well formed. -/
theorem take_builds (limit : Nat) (hr : r.Formed named) (ht : ∀ n, t.kind = .ident n → named n) :
    Builds named (r.take limit t) := by
  have hmode := hr.mode
  have hempty (head : Head) (h : head.Formed named) : Phrase.Formed named ⟨[], [], head⟩ :=
    ⟨List.forall_mem_nil _, List.forall_mem_nil _, h⟩
  unfold take
  cases hm : r.mode with
  | statement => exact statement_builds limit hr ht
  | leadingName place name =>
    rw [hm] at hmode
    dsimp only
    split
    · exact hr.goto (hempty _ hmode)
    · exact afterName_builds limit hr (hempty (.expression place) trivial) place hmode ht
  | letName start =>
    dsimp only
    split
    · next n hk => exact hr.goto (ht n hk)
    · exact builds_reject t _
  | letEquals start name =>
    rw [hm] at hmode
    dsimp only
    split
    · exact hr.goto (hempty _ hmode)
    · exact builds_reject t _
  | useModule start =>
    dsimp only
    split
    · next n hk => exact hr.goto (ht n hk)
    · exact builds_reject t _
  | useColons start module =>
    rw [hm] at hmode
    dsimp only
    split
    · exact hr.goto hmode
    · exact builds_reject t _
  | useSymbol start module =>
    rw [hm] at hmode
    dsimp only
    split
    · next n hk => exact hr.goto ⟨hmode, ht n hk⟩
    · exact builds_reject t _
  | useTail start module symbol =>
    rw [hm] at hmode
    dsimp only
    split
    · exact hr.goto hmode
    · exact terminate_builds limit hr (fun _ => .use _ hmode.1 hmode.2 nofun) ht
  | useAlias start module symbol =>
    rw [hm] at hmode
    dsimp only
    split
    · next n hk => exact hr.goto ⟨hmode.1, hmode.2, ht n hk⟩
    · exact builds_reject t _
  | useDone start module symbol newName =>
    rw [hm] at hmode
    obtain ⟨hmodule, hsymbol, hnewName⟩ := hmode
    refine terminate_builds limit hr (fun _ => .use _ hmodule hsymbol ?_) ht
    rintro _ ⟨⟩
    exact hnewName
  | operand p =>
    rw [hm] at hmode
    exact operand_builds limit hr hmode ht
  | name p place name =>
    rw [hm] at hmode
    exact afterName_builds limit hr hmode.1 place hmode.2 ht
  | pathSymbol p place module =>
    rw [hm] at hmode
    dsimp only
    split
    · next n hk => exact hr.goto ⟨hmode.1, hmode.2, ht n hk⟩
    · exact builds_reject t _
  | pathCall p place module symbol =>
    rw [hm] at hmode
    dsimp only
    split
    · next hk => exact complete_builds limit hr hmode.1 (.inr ⟨.path _ hmode.2.1 hmode.2.2, hk⟩) ht
    · exact builds_reject t _
  | complete p e =>
    rw [hm] at hmode
    exact complete_builds limit hr hmode.1 (.inl hmode.2) ht

/-! ## Runs -/

theorem Formed.advance {limit : Nat} {r' : Reader} (hr : r.Formed named)
    (ht : ∀ n, t.kind = .ident n → named n) (h : r.advance limit t = .ok r') : r'.Formed named := by
  have hbuilds := take_builds limit hr ht
  cases htake : r.take limit t with
  | error fault => rw [advance_error htake] at h; cases h
  | ok next =>
    rw [htake] at hbuilds
    by_cases hk : t.kind = .eof
    · rw [Reader.advance, hk, htake] at h
      cases h
      exact hbuilds
    · rw [advance_of_ne_eof hk htake] at h
      cases h
      exact ⟨hbuilds.done, hbuilds.blocks, hbuilds.mode⟩

theorem Formed.run {limit : Nat} {ts : List Token} {r' : Reader} (hr : r.Formed named)
    (hts : ∀ t ∈ ts, ∀ n, t.kind = .ident n → named n) (h : r.run limit ts = .ok r') :
    r'.Formed named := by
  induction ts generalizing r with
  | nil =>
    cases h
    exact hr
  | cons t ts ih =>
    obtain ⟨ht, hts⟩ := List.forall_mem_cons.1 hts
    rw [Reader.run] at h
    cases hnext : r.advance limit t with
    | error fault => rw [hnext] at h; cases h
    | ok next =>
      rw [hnext] at h
      have hformed := hr.advance ht hnext
      dsimp only at h
      split_ifs at h with hk
      · cases h
        exact hformed
      · exact ih hformed hts h

end

end Reader

/-- The statements of a program that is read are well formed, with names of its tokens. -/
theorem Program.isStatement_of_read {named : String → Prop} {limit : Nat} {tokens : List Token}
    {p : Program} (htokens : ∀ t ∈ tokens, ∀ n, t.kind = .ident n → named n)
    (h : Program.read limit tokens = .ok p) : ∀ s ∈ p.statements, s.IsStatement named := by
  cases tokens with
  | nil =>
    cases h
    exact List.forall_mem_nil _
  | cons first ts =>
    rw [Program.read] at h
    cases hrun : (Reader.initial first.span).run limit (first :: ts) with
    | error fault => rw [hrun] at h; cases h
    | ok r =>
      rw [hrun] at h
      cases h
      have hinitial : (Reader.initial first.span).Formed named :=
        ⟨List.forall_mem_nil _, List.forall_mem_nil _, trivial⟩
      exact fun s hs => (hinitial.run htokens hrun).done s (List.mem_reverse.1 hs)

end Scriptlet
