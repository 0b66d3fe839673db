import Scriptlet.Proofs.Chains
import Scriptlet.Proofs.Operations
import Scriptlet.Proofs.Steps
import Scriptlet.Proofs.Traversal
import Scriptlet.Proofs.WellFormed

/-!
# Two evaluations side by side

An evaluation is put together from a few kinds of steps. A relation between computations that holds of
the steps of two settings, and that sequences, levels and scopes keep, holds of the two evaluations of
every tree. A property of computations is the case of one setting beside itself.

The relation may depend on something that adds up along the tree, as the calls in it do, or the levels that
it opens; and what it asks of the steps may depend on what is promised of the trees.

* `Eval.Grading`: what adds up along a tree.
* `Eval.Promise`: what is promised of the trees.
* `Eval.ExpressionRules`, `Eval.Correspondence`: what is asked of a relation for expressions, and for
  statements.
* `ExpressionRules.evaluate`, `Correspondence.executeAll`: what follows for whole trees.
-/

namespace Scriptlet

namespace Node

/-- The expressions that are evaluated for the value of an expression. -/
def operands : Node → List Node
  | .unary _ _ a => [a]
  | .binary _ a _ b | .index _ a b => [a, b]
  | .tuple _ es | .call _ _ es => es
  | _ => []

theorem mem_children_of_operands {n c : Node} (h : c ∈ n.operands) : c ∈ n.children := by
  cases n with
  | unary | binary | tuple | index => exact h
  | call => exact List.mem_cons_of_mem _ h
  | _ => cases h

theorem IsExpression.operand {named : String → Prop} {n c : Node} (h : n.IsExpression named)
    (hc : c ∈ n.operands) : c.IsExpression named := by
  cases h with
  | unary _ _ ha =>
    cases List.mem_singleton.1 hc
    exact ha
  | binary _ _ ha hb | index _ ha hb =>
    rcases List.mem_cons.1 hc with rfl | hc
    · exact ha
    · cases List.mem_singleton.1 hc
      exact hb
  | tuple _ hes | call _ _ hes => exact hes c hc
  | _ => cases hc

end Node

namespace Eval

/-! ## What adds up along a tree -/

/-- What an evaluation adds up along a tree: nothing for a step, and something for what comes one after
another, for a level and for a call. A tree that the evaluation gets stuck at counts as it is. -/
structure Grading (G : Type) where
  none : G
  seq : G → G → G
  level : G → G
  call : Node → G
  stuck : Node → G
  none_seq : ∀ g, seq none g = g
  seq_none : ∀ g, seq g none = g

namespace Grading

variable {G : Type}

/-- Nothing adds up. -/
def trivial : Grading Unit :=
  ⟨(), fun _ _ => (), fun _ => (), fun _ => (), fun _ => (), fun _ => rfl, fun _ => rfl⟩

/-- A name or a path is looked up in one step, and nothing else can be called. -/
def callee (μ : Grading G) : Node → G
  | .name _ _ | .path _ _ _ => μ.none
  | f => μ.stuck f

mutual

/-- What adds up along an expression. -/
def expression (μ : Grading G) (chained : Bool) : Node → G
  | .literal _ _ | .name _ _ | .path _ _ _ => μ.level μ.none
  | .unary _ _ a => μ.level (μ.expression false a)
  | .binary _ a _ b =>
    let both := μ.seq (μ.expression true a) (μ.expression false b)
    if chained then both else μ.level both
  | .index _ a b => μ.level (μ.seq (μ.expression false a) (μ.expression false b))
  | .tuple _ es => μ.level (μ.expressions es)
  | .call span f es =>
    μ.level (μ.seq (μ.callee f) (μ.seq (μ.expressions es) (μ.call (.call span f es))))
  | .binding span n a => μ.stuck (.binding span n a)
  | .expression span a => μ.stuck (.expression span a)
  | .block span es => μ.stuck (.block span es)
  | .use span m f n => μ.stuck (.use span m f n)
  | .program span es => μ.stuck (.program span es)
  | .blank span b => μ.stuck (.blank span b)

/-- What adds up along several expressions. -/
def expressions (μ : Grading G) : List Node → G
  | [] => μ.none
  | e :: es => μ.seq (μ.expression false e) (μ.expressions es)

end

mutual

/-- What adds up along a statement. -/
def statement (μ : Grading G) : Node → G
  | .expression _ e | .binding _ _ e => μ.expression false e
  | .block _ es => μ.level (μ.statements es)
  | .use _ _ _ _ => μ.none
  | .literal span v => μ.stuck (.literal span v)
  | .name span n => μ.stuck (.name span n)
  | .unary span op a => μ.stuck (.unary span op a)
  | .binary span a op b => μ.stuck (.binary span a op b)
  | .tuple span es => μ.stuck (.tuple span es)
  | .index span a b => μ.stuck (.index span a b)
  | .path span m f => μ.stuck (.path span m f)
  | .call span f es => μ.stuck (.call span f es)
  | .program span es => μ.stuck (.program span es)
  | .blank span b => μ.stuck (.blank span b)

/-- What adds up along a list of statements. -/
def statements (μ : Grading G) : List Node → G
  | [] => μ.none
  | e :: es => μ.seq (μ.statement e) (μ.statements es)

end

end Grading

/-! ## What is promised of trees -/

/-- What is promised of the trees that are evaluated: that the paths in them are in `named` and, where asked
for, that they are well formed and that they have no logical operations. -/
structure Promise where
  named : String × String → Prop := fun _ => True
  formed : Prop := False
  plain : Prop := False

namespace Promise

variable {w : Promise}

/-- The promise is kept by an expression. -/
structure Expression (w : Promise) (e : Node) : Prop where
  named : e.Names w.named
  formed : w.formed → e.IsExpression fun _ => True
  plain : w.plain → e.Plain

/-- The promise is kept by a statement. -/
structure Statement (w : Promise) (e : Node) : Prop where
  named : e.Names w.named
  formed : w.formed → e.IsStatement fun _ => True
  plain : w.plain → e.Plain

theorem Expression.operand {n c : Node} (h : w.Expression n) (hc : c ∈ n.operands) :
    w.Expression c where
  named := h.named.child (Node.mem_children_of_operands hc)
  formed hw := (h.formed hw).operand hc
  plain hw := (h.plain hw).child (Node.mem_children_of_operands hc)

theorem Statement.expression {span : Option Span} {e : Node}
    (h : w.Statement (.expression span e)) : w.Expression e where
  named := h.named.child List.mem_cons_self
  formed hw := by
    cases h.formed hw with
    | expression _ he => exact he
  plain hw := (h.plain hw).child List.mem_cons_self

theorem Statement.binding {span : Option Span} {name : String} {e : Node}
    (h : w.Statement (.binding span name e)) : w.Expression e where
  named := h.named.child List.mem_cons_self
  formed hw := by
    cases h.formed hw with
    | binding _ _ he => exact he
  plain hw := (h.plain hw).child List.mem_cons_self

theorem Statement.block {span : Option Span} {es : List Node} (h : w.Statement (.block span es)) :
    ∀ e ∈ es, w.Statement e := fun e he => {
  named := h.named.child he
  formed hw := by
    cases h.formed hw with
    | block _ hes => exact hes e he
  plain hw := (h.plain hw).child he }

/-- Nothing is promised of an expression. -/
theorem Expression.nothing (e : Node) : ({} : Promise).Expression e :=
  ⟨fun _ _ => trivial, False.elim, False.elim⟩

/-- Nothing is promised of a statement. -/
theorem Statement.nothing (e : Node) : ({} : Promise).Statement e :=
  ⟨fun _ _ => trivial, False.elim, False.elim⟩

end Promise

/-! ## What is asked of a relation -/

variable {σ τ G : Type}

/-- A relation between the computations of two settings that all steps of an expression keep. The native
functions of one setting stand for those of the other by `P`. A computation that stops at once has whatever
grade is asked for, and so has a logical operation that is decided by its left operand. -/
structure ExpressionRules (s : Setting σ) (s' : Setting τ) (w : Promise) (μ : Grading G)
    (P : Native σ → Native τ → Prop) (R : G → ∀ α : Type, Eval σ α → Eval τ α → Prop) : Prop where
  decided : ¬ w.plain → ∀ (g : G) (v : Value), R g Value (pure v) (pure v)
  misplaced : ¬ w.formed → ∀ (g : G) (span : Option Span) (m : Malformed),
    R g Value (nested s.limits span (refuse m)) (nested s'.limits span (refuse m))
  pure : ∀ {α : Type} (a : α), R μ.none α (pure a) (pure a)
  fail : ∀ {α : Type} (g : G) (span : Option Span) {cause : Cause},
    (w.formed → cause.isOperation = true) → R g α (fail span cause) (fail span cause)
  refuse : ¬ w.formed → ∀ {α : Type} (g : G) (m : Malformed), R g α (refuse m) (refuse m)
  readName : ∀ (span : Option Span) (name : String),
    R μ.none Value (readName span name) (readName span name)
  bind : ∀ {α β : Type} {g g' : G} {x : Eval σ α} {y : Eval τ α} {f : α → Eval σ β}
    {f' : α → Eval τ β}, R g α x y → (∀ a, R g' β (f a) (f' a)) →
    R (μ.seq g g') β (x >>= f) (y >>= f')
  nested : ∀ {g : G} {x : Eval σ Value} {y : Eval τ Value}, R g Value x y → ∀ span : Option Span,
    R (μ.level g) Value (nested s.limits span x) (nested s'.limits span y)
  resolve : ∀ {g : G} {k : Native σ → Eval σ Value} {k' : Native τ → Eval τ Value}
    (span : Option Span) {module symbol : String}, w.named (module, symbol) →
    (∀ n n', P n n' → R g Value (k n) (k' n')) →
    R g Value (resolve s.registry span module symbol >>= k)
      (resolve s'.registry span module symbol >>= k')
  lookUp : ∀ {g : G} {k : Native σ → Eval σ Value} {k' : Native τ → Eval τ Value}
    (span : Option Span) (name : String), (∀ n n', P n n' → R g Value (k n) (k' n')) →
    R g Value (callee s.registry (.name span name) >>= k)
      (callee s'.registry (.name span name) >>= k')
  invoke : ∀ (call : Node) (args : List Value) {n : Native σ} {n' : Native τ}, P n n' →
    R (μ.call call) Value (invoke call n args) (invoke call n' args)

/-- A relation that the steps of a statement keep, too. -/
structure Correspondence (s : Setting σ) (s' : Setting τ) (w : Promise) (μ : Grading G)
    (P : Native σ → Native τ → Prop) (R : G → ∀ α : Type, Eval σ α → Eval τ α → Prop) : Prop extends
    ExpressionRules s s' w μ P R where
  inScope : ∀ {g : G} {x : Eval σ Value} {y : Eval τ Value}, R g Value x y →
    R g Value (inScope x) (inScope y)
  bindValue : ∀ (name : String) (v : Value),
    R μ.none Unit (bindName name (.value v)) (bindName name (.value v))
  bindNative : ∀ (name : String) {n : Native σ} {n' : Native τ}, P n n' →
    R μ.none Unit (bindName name (.native n)) (bindName name (.native n'))

variable {s : Setting σ} {s' : Setting τ} {w : Promise} {μ : Grading G}
  {P : Native σ → Native τ → Prop} {R : G → ∀ α : Type, Eval σ α → Eval τ α → Prop}

/-- No operation but a logical one is decided by its left operand. -/
theorem shortcut_of_not_logical {span : Option Span} {a b : Node} {op : String}
    (h : (Node.binary span a op b).isLogical = false) (left : Value) :
    shortcut (σ := σ) span op left = pure none := by
  unfold shortcut
  cases hop : BinaryOperator.ofText? op with
  | none => rfl
  | some operator =>
    have htext : operator.text = op := by
      have hfound := List.find?_some hop
      exact eq_of_beq hfound
    subst htext
    cases operator with
    | and | or => cases h
    | _ => rfl

namespace ExpressionRules

/-! ## Steps that are put together -/

section

variable (h : ExpressionRules s s' w μ P R)

include h

/-- What follows adds nothing. -/
theorem bind_step {α β : Type} {g : G} {x : Eval σ α} {y : Eval τ α} {f : α → Eval σ β}
    {f' : α → Eval τ β} (hx : R g α x y) (hf : ∀ a, R μ.none β (f a) (f' a)) :
    R g β (x >>= f) (y >>= f') := by
  rw [← μ.seq_none g]
  exact h.bind hx hf

/-- What comes first adds nothing. -/
theorem step_bind {α β : Type} {g : G} {x : Eval σ α} {y : Eval τ α} {f : α → Eval σ β}
    {f' : α → Eval τ β} (hx : R μ.none α x y) (hf : ∀ a, R g β (f a) (f' a)) :
    R g β (x >>= f) (y >>= f') := by
  rw [← μ.none_seq g]
  exact h.bind hx hf

theorem settle {α : Type} (span : Option Span) {r : Except Cause α}
    (hr : ∀ cause, r = .error cause → cause.isOperation = true) :
    R μ.none α (settle span r) (settle span r) := by
  cases r with
  | ok a => exact h.pure a
  | error cause => exact h.fail μ.none span fun _ => hr cause rfl

theorem shortcut (span : Option Span) (operator : String) (left : Value) :
    R μ.none (Option Value) (shortcut span operator left) (shortcut span operator left) := by
  unfold Eval.shortcut
  cases BinaryOperator.ofText? operator with
  | some op => exact h.settle span fun _ => Operation.isOperation_of_shortcut
  | none => exact h.pure none

theorem combine (span : Option Span) {operator : String}
    (hoperator : w.formed → ∃ op : BinaryOperator, operator = op.text) (left right : Value) :
    R μ.none Value (combine span operator left right) (combine span operator left right) := by
  unfold Eval.combine
  cases hop : BinaryOperator.ofText? operator with
  | some op => exact h.settle span fun _ => Operation.isOperation_of_binary
  | none =>
    refine h.refuse (fun hw => ?_) _ _
    obtain ⟨op, rfl⟩ := hoperator hw
    rw [BinaryOperator.ofText?_text] at hop
    cases hop

/-- Both operands of a binary operation, without the level it may have. -/
theorem operands {g g' : G} {span : Option Span} {a b : Node} {op : String}
    (hn : w.Expression (.binary span a op b))
    (ha : R g Value (evaluate s true a) (evaluate s' true a))
    (hb : R g' Value (evaluate s false b) (evaluate s' false b)) :
    R (μ.seq g g') Value (evaluate s true a >>= (applyLink s · ⟨span, op, b⟩))
      (evaluate s' true a >>= (applyLink s' · ⟨span, op, b⟩)) := by
  have hoperator (hw : w.formed) : ∃ operator : BinaryOperator, op = operator.text := by
    cases hn.formed hw with
    | binary _ operator => exact ⟨operator, rfl⟩
  refine h.bind ha fun left => ?_
  have hright : R g' Value
      (evaluate s false b >>= fun right => Eval.combine span op left right)
      (evaluate s' false b >>= fun right => Eval.combine span op left right) :=
    h.bind_step hb fun right => h.combine span hoperator left right
  unfold applyLink
  dsimp only
  by_cases hlogical : (Node.binary span a op b).isLogical = true
  · refine h.step_bind (h.shortcut span op left) fun decided => ?_
    cases decided with
    | none => exact hright
    | some v =>
      refine h.decided (fun hw => ?_) g' v
      rw [(hn.plain hw).self] at hlogical
      cases hlogical
  · have hopen := Bool.eq_false_iff.2 hlogical
    rw [shortcut_of_not_logical hopen, shortcut_of_not_logical hopen]
    exact hright

/-- A callee that is neither a path nor a name fails, whatever comes after it. -/
theorem callee {g : G} {k : Native σ → Eval σ Value} {k' : Native τ → Eval τ Value}
    {span : Option Span} {f : Node} {es : List Node} (hn : w.Expression (.call span f es))
    (hk : ∀ n n', P n n' → R g Value (k n) (k' n')) :
    R (μ.seq (μ.callee f) g) Value (callee s.registry f >>= k) (callee s'.registry f >>= k') := by
  have hstuck (hf : ∀ named, ¬ f.IsCallee named) (place : Option Span) (g : G) :
      R g Value (Eval.fail place .invalidCallee) (Eval.fail place .invalidCallee) := by
    refine h.fail g place fun hw => ?_
    cases hn.formed hw with
    | call _ hcallee => exact absurd hcallee (hf _)
  cases f with
  | path place module symbol =>
    rw [Grading.callee, μ.none_seq]
    exact h.resolve place (hn.named.self rfl) hk
  | name place name =>
    rw [Grading.callee, μ.none_seq]
    exact h.lookUp place name hk
  | _ => exact hstuck (fun _ hf => by cases hf) _ _

end

/-! ## Expressions -/

mutual

theorem evaluate (h : ExpressionRules s s' w μ P R) :
    ∀ (e : Node) (chained : Bool), w.Expression e →
      R (μ.expression chained e) Value (evaluate s chained e) (evaluate s' chained e)
  | .literal span v, _, _ => by
    rw [Eval.evaluate, Eval.evaluate, Grading.expression]
    exact h.nested (h.pure v) span
  | .name span n, _, _ => by
    rw [Eval.evaluate, Eval.evaluate, Grading.expression]
    exact h.nested (h.readName span n) span
  | .unary span op a, _, hn => by
    have ha := evaluate h a false (hn.operand List.mem_cons_self)
    rw [Eval.evaluate, Eval.evaluate, Grading.expression]
    refine h.nested (h.bind_step ha fun v => ?_) span
    exact h.settle span fun _ => Operation.isOperation_of_unary
  | .binary span a op b, chained, hn => by
    have ha := evaluate h a true (hn.operand List.mem_cons_self)
    have hb := evaluate h b false (hn.operand (List.mem_cons_of_mem _ List.mem_cons_self))
    have hboth := h.operands hn ha hb
    rw [Eval.evaluate, Eval.evaluate, Grading.expression]
    cases chained with
    | true => exact hboth
    | false => exact h.nested hboth span
  | .tuple span es, _, hn => by
    have hes := evaluateAll h es fun e he => hn.operand he
    rw [Eval.evaluate, Eval.evaluate, Grading.expression]
    exact h.nested (h.bind_step hes fun vs => h.pure _) span
  | .index span a b, _, hn => by
    have ha := evaluate h a false (hn.operand List.mem_cons_self)
    have hb := evaluate h b false (hn.operand (List.mem_cons_of_mem _ List.mem_cons_self))
    rw [Eval.evaluate, Eval.evaluate, Grading.expression]
    refine h.nested (h.bind ha fun object => h.bind_step hb fun position => ?_) span
    exact h.settle span fun _ => Operation.isOperation_of_element
  | .path span _ _, _, hn => by
    rw [Eval.evaluate, Eval.evaluate, Grading.expression]
    refine h.nested (h.fail _ span fun hw => ?_) span
    cases hn.formed hw
  | .call span f es, _, hn => by
    have hes := evaluateAll h es fun e he => hn.operand he
    rw [Eval.evaluate, Eval.evaluate, Grading.expression]
    refine h.nested (h.callee hn fun n n' hnative => ?_) span
    exact h.bind hes fun args => h.invoke _ args hnative
  | .binding span _ _, _, hn | .expression span _, _, hn | .block span _, _, hn
  | .use span _ _ _, _, hn | .program span _, _, hn | .blank span _, _, hn => by
    rw [Eval.evaluate, Eval.evaluate]
    refine h.misplaced (fun hw => ?_) _ span _
    cases hn.formed hw

theorem evaluateAll (h : ExpressionRules s s' w μ P R) :
    ∀ es : List Node, (∀ e ∈ es, w.Expression e) →
      R (μ.expressions es) (List Value) (evaluateAll s es) (evaluateAll s' es)
  | [], _ => by
    rw [Eval.evaluateAll, Eval.evaluateAll, Grading.expressions]
    exact h.pure []
  | e :: es, hn => by
    have he := evaluate h e false (hn e List.mem_cons_self)
    have hes := evaluateAll h es fun e he => hn e (List.mem_cons_of_mem _ he)
    rw [Eval.evaluateAll, Eval.evaluateAll, Grading.expressions]
    exact h.bind he fun v => h.bind_step hes fun vs => h.pure _

end

end ExpressionRules

/-! ## Statements -/

namespace Correspondence

mutual

theorem execute (h : Correspondence s s' w μ P R) :
    ∀ e : Node, w.Statement e → R (μ.statement e) Value (execute s e) (execute s' e)
  | .expression _ e, hn => by
    rw [Eval.execute, Eval.execute, Grading.statement]
    exact h.evaluate e false hn.expression
  | .binding _ name e, hn => by
    have he := h.evaluate e false hn.binding
    rw [Eval.execute, Eval.execute, Grading.statement]
    exact h.bind_step he fun v => h.bind_step (h.bindValue name v) fun _ => h.pure _
  | .block span es, hn => by
    have hes := executeAll h es .unit hn.block
    rw [Eval.execute, Eval.execute, Grading.statement]
    exact h.nested (h.inScope hes) span
  | .use span module symbol newName, hn => by
    rw [Eval.execute, Eval.execute, Grading.statement]
    refine h.resolve span (hn.named.self rfl) fun n n' hnative => ?_
    exact h.bind_step (h.bindNative _ hnative) fun _ => h.pure _
  | .literal _ _, hn | .name _ _, hn | .unary _ _ _, hn | .binary _ _ _ _, hn | .tuple _ _, hn
  | .index _ _ _, hn | .path _ _ _, hn | .call _ _ _, hn | .program _ _, hn | .blank _ _, hn => by
    rw [Eval.execute, Eval.execute]
    refine h.refuse (fun hw => ?_) _ _
    cases hn.formed hw

/-- The evaluations of a list of statements are related. -/
theorem executeAll (h : Correspondence s s' w μ P R) :
    ∀ (es : List Node) (last : Value), (∀ e ∈ es, w.Statement e) →
      R (μ.statements es) Value (executeAll s last es) (executeAll s' last es)
  | [], last, _ => by
    rw [Eval.executeAll, Eval.executeAll, Grading.statements]
    exact h.pure last
  | e :: es, last, hn => by
    have he := execute h e (hn e List.mem_cons_self)
    rw [Eval.executeAll, Eval.executeAll, Grading.statements]
    exact h.bind he fun v => executeAll h es v fun e he => hn e (List.mem_cons_of_mem _ he)

end

end Correspondence

end Eval

end Scriptlet
