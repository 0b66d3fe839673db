import Scriptlet.Proofs.Levels

/-!
# Chains of operators

A chain `a + b + … + z` is evaluated by going down to its first operand and then working off the
operators one by one, all on one level. The plain way is `evaluatePlain`: every operator evaluates both its
operands one level down.

* `chainLoop`: the loop over the operators of a chain; `evaluate_binary` says that `evaluate` is this loop.
* `evaluate_eq_plain`: where the plain way does not stop at a limit, the loop ends in the same way: with the
  same value or the same failure, and in the same state, trace of calls included.
-/

namespace Scriptlet

namespace Node

mutual

/-- How many nodes lie on the longest way down from a node. -/
def height : Node → Nat
  | .unary _ _ a | .binding _ _ a | .expression _ a => a.height + 1
  | .binary _ a _ b | .index _ a b => max a.height b.height + 1
  | .tuple _ es | .block _ es | .program _ es => heightAll es + 1
  | .call _ f es => max f.height (heightAll es) + 1
  | .literal _ _ | .name _ _ | .path _ _ _ | .use _ _ _ _ | .blank _ _ => 1

/-- The height of the highest node. -/
def heightAll : List Node → Nat
  | [] => 0
  | e :: es => max e.height (heightAll es)

end

end Node

namespace Eval

variable {σ : Type}

open Result

/-! ## A chain is worked off in a loop -/

/-- An operator of a chain with its right operand. -/
structure Link where
  span : Option Span
  operator : String
  right : Node

/-- The first operand of a chain. -/
def chainStart : Node → Node
  | .binary _ a _ _ => chainStart a
  | e => e

/-- The operators of a chain, the one that is applied first in front. -/
def chainLinks : Node → List Link
  | .binary span a op b => chainLinks a ++ [⟨span, op, b⟩]
  | _ => []

theorem chainStart_of_not_binary {e : Node} (h : ∀ span a op b, e ≠ .binary span a op b) :
    chainStart e = e := by
  unfold chainStart
  split
  · exact absurd rfl (h _ _ _ _)
  · rfl

theorem chainLinks_of_not_binary {e : Node} (h : ∀ span a op b, e ≠ .binary span a op b) :
    chainLinks e = [] := by
  unfold chainLinks
  split
  · exact absurd rfl (h _ _ _ _)
  · rfl

/-- Applies an operator to its left operand; the right one is evaluated if it is needed. -/
def applyLink (s : Setting σ) (left : Value) (l : Link) : Eval σ Value := do
  match ← shortcut l.span l.operator left with
  | some v => pure v
  | none =>
    let right ← evaluate s false l.right
    combine l.span l.operator left right

/-- A chain as a loop: the first operand, and then operator by operator. -/
def chainLoop (s : Setting σ) (e : Node) : Eval σ Value := do
  let first ← evaluate s false (chainStart e)
  (chainLinks e).foldlM (applyLink s) first

/-- Without a level of its own, a chain is the loop over its operators. -/
theorem evaluate_chained (s : Setting σ) (e : Node) : evaluate s true e = chainLoop s e := by
  unfold chainLoop
  induction e using chainStart.induct with
  | case1 span a op b ih =>
    simp only [evaluate, if_true, chainStart, chainLinks, ih, List.foldlM_append, bind_assoc,
      List.foldlM_cons, List.foldlM_nil, bind_pure]
    rfl
  | case2 e hne =>
    rw [chainStart_of_not_binary hne, chainLinks_of_not_binary hne]
    simp only [List.foldlM_nil, bind_pure]
    cases e with
    | binary span a op b => exact absurd rfl (hne _ _ _ _)
    | _ => rw [evaluate, evaluate]

/-- A binary operation takes one level for all of its chain. -/
theorem evaluate_binary (s : Setting σ) (span : Option Span) (a b : Node) (op : String) :
    evaluate s false (.binary span a op b) =
      nested s.limits span (chainLoop s (.binary span a op b)) := by
  rw [← evaluate_chained, evaluate, evaluate, if_neg Bool.false_ne_true, if_pos rfl]

/-! ## The plain way -/

mutual

/-- The value of an expression, each operand one level below its operator. -/
def evaluatePlain (s : Setting σ) : Node → Eval σ Value
  | .literal span v => nested s.limits span (pure v)
  | .name span n => nested s.limits span (readName span n)
  | .unary span op a =>
    nested s.limits span do
      let v ← evaluatePlain s a
      settle span (Operation.unary op v)
  | .binary span a op b =>
    nested s.limits span do
      let left ← evaluatePlain s a
      match ← shortcut span op left with
      | some v => pure v
      | none =>
        let right ← evaluatePlain s b
        combine span op left right
  | .tuple span es =>
    nested s.limits span do
      let vs ← evaluatePlainAll s es
      return .tuple vs
  | .index span a b =>
    nested s.limits span do
      let object ← evaluatePlain s a
      let position ← evaluatePlain s b
      settle span (Operation.element object position)
  | .path span _ _ => nested s.limits span (fail span .invalidCallee)
  | .call span f es =>
    nested s.limits span do
      let n ← callee s.registry f
      let args ← evaluatePlainAll s es
      invoke (.call span f es) n args
  | .binding span n a =>
    nested s.limits span (refuse (.expression (Node.binding span n a).kindName))
  | .expression span a =>
    nested s.limits span (refuse (.expression (Node.expression span a).kindName))
  | .block span es => nested s.limits span (refuse (.expression (Node.block span es).kindName))
  | .use span m f n => nested s.limits span (refuse (.expression (Node.use span m f n).kindName))
  | .program span es => nested s.limits span (refuse (.expression (Node.program span es).kindName))
  | .blank span b => nested s.limits span (refuse (.expression (Node.blank span b).kindName))

/-- The values of several expressions, from left to right. -/
def evaluatePlainAll (s : Setting σ) : List Node → Eval σ (List Value)
  | [] => pure []
  | e :: es => do
    let v ← evaluatePlain s e
    let vs ← evaluatePlainAll s es
    return v :: vs

end

/-! ## Both ways agree -/

theorem relaxes_level_self {α : Type} {x y : Eval σ α} (h : Relaxes x y) (s : Setting σ)
    (span : Option Span) : Relaxes (nested s.limits span x) (nested s.limits span y) :=
  h.level (fun _ => id) span

mutual

/-- Evaluation relaxes the plain way, as an expression of its own and inside of a chain. -/
theorem evaluatePlain_relaxes (s : Setting σ) :
    ∀ (e : Node) (chained : Bool), Relaxes (evaluatePlain s e) (evaluate s chained e)
  | .literal span v, _ => by
    rw [evaluatePlain, evaluate]
    exact relaxes_level_self (levelFree_pure v).relaxes s span
  | .name span n, _ => by
    rw [evaluatePlain, evaluate]
    exact relaxes_level_self (levelFree_readName span n).relaxes s span
  | .unary span op a, _ => by
    rw [evaluatePlain, evaluate]
    refine relaxes_level_self ?_ s span
    exact (evaluatePlain_relaxes s a false).bind fun v => (levelFree_settle span _).relaxes
  | .binary span a op b, chained => by
    rw [evaluatePlain, evaluate]
    have hbody : Relaxes
        (do
          let left ← evaluatePlain s a
          match ← shortcut span op left with
          | some v => pure v
          | none =>
            let right ← evaluatePlain s b
            combine span op left right)
        (do
          let left ← evaluate s true a
          match ← shortcut span op left with
          | some v => pure v
          | none =>
            let right ← evaluate s false b
            combine span op left right) := by
      refine (evaluatePlain_relaxes s a true).bind fun left => ?_
      refine (levelFree_shortcut span op left).relaxes.bind fun decided => ?_
      cases decided with
      | some v => exact (levelFree_pure v).relaxes
      | none =>
        refine (evaluatePlain_relaxes s b false).bind fun right => ?_
        exact (levelFree_combine span op left right).relaxes
    cases chained with
    | true => exact hbody.drop s.limits span
    | false => exact relaxes_level_self hbody s span
  | .tuple span es, _ => by
    rw [evaluatePlain, evaluate]
    refine relaxes_level_self ?_ s span
    exact (evaluatePlainAll_relaxes s es).bind fun vs => (levelFree_pure _).relaxes
  | .index span a b, _ => by
    rw [evaluatePlain, evaluate]
    refine relaxes_level_self ?_ s span
    refine (evaluatePlain_relaxes s a false).bind fun object => ?_
    refine (evaluatePlain_relaxes s b false).bind fun position => ?_
    exact (levelFree_settle span _).relaxes
  | .path span _ _, _ => by
    rw [evaluatePlain, evaluate]
    exact relaxes_level_self (levelFree_fail span _).relaxes s span
  | .call span f es, _ => by
    rw [evaluatePlain, evaluate]
    refine relaxes_level_self ?_ s span
    refine (levelFree_callee s.registry f).relaxes.bind fun n => ?_
    refine (evaluatePlainAll_relaxes s es).bind fun args => ?_
    exact (levelFree_invoke _ n args).relaxes
  | .binding span _ _, _ | .expression span _, _ | .block span _, _ | .use span _ _ _, _
  | .program span _, _ | .blank span _, _ => by
    rw [evaluatePlain, evaluate]
    exact relaxes_level_self (levelFree_refuse _).relaxes s span

theorem evaluatePlainAll_relaxes (s : Setting σ) :
    ∀ es : List Node, Relaxes (evaluatePlainAll s es) (evaluateAll s es)
  | [] => by
    rw [evaluatePlainAll, evaluateAll]
    exact (levelFree_pure []).relaxes
  | e :: es => by
    rw [evaluatePlainAll, evaluateAll]
    refine (evaluatePlain_relaxes s e false).bind fun v => ?_
    refine (evaluatePlainAll_relaxes s es).bind fun vs => ?_
    exact (levelFree_pure _).relaxes

end

/-! ## Room for the plain way -/

mutual

/-- The plain way needs as many levels as the tree is high. -/
theorem evaluatePlain_fits (s : Setting σ) :
    ∀ e : Node, Fits s.limits e.height (evaluatePlain s e)
  | .literal span v => by
    rw [evaluatePlain, Node.height]
    exact (Fits.of_levelFree (levelFree_pure v)).level span
  | .name span n => by
    rw [evaluatePlain, Node.height]
    exact (Fits.of_levelFree (levelFree_readName span n)).level span
  | .unary span op a => by
    rw [evaluatePlain, Node.height]
    refine Fits.level ?_ span
    exact (evaluatePlain_fits s a).bind fun v => .of_levelFree (levelFree_settle span _)
  | .binary span a op b => by
    rw [evaluatePlain, Node.height]
    refine Fits.level ?_ span
    refine ((evaluatePlain_fits s a).mono (Nat.le_max_left _ _)).bind fun left => ?_
    refine (Fits.of_levelFree (levelFree_shortcut span op left)).bind fun decided => ?_
    cases decided with
    | some v => exact .of_levelFree (levelFree_pure v)
    | none =>
      refine ((evaluatePlain_fits s b).mono (Nat.le_max_right _ _)).bind fun right => ?_
      exact .of_levelFree (levelFree_combine span op left right)
  | .tuple span es => by
    rw [evaluatePlain, Node.height]
    refine Fits.level ?_ span
    exact (evaluatePlainAll_fits s es).bind fun vs => .of_levelFree (levelFree_pure _)
  | .index span a b => by
    rw [evaluatePlain, Node.height]
    refine Fits.level ?_ span
    refine ((evaluatePlain_fits s a).mono (Nat.le_max_left _ _)).bind fun object => ?_
    refine ((evaluatePlain_fits s b).mono (Nat.le_max_right _ _)).bind fun position => ?_
    exact .of_levelFree (levelFree_settle span _)
  | .path span _ _ => by
    rw [evaluatePlain, Node.height]
    exact (Fits.of_levelFree (levelFree_fail span _)).level span
  | .call span f es => by
    rw [evaluatePlain, Node.height]
    refine Fits.level ?_ span
    refine (Fits.of_levelFree (levelFree_callee s.registry f)).bind fun n => ?_
    refine ((evaluatePlainAll_fits s es).mono (Nat.le_max_right _ _)).bind fun args => ?_
    exact .of_levelFree (levelFree_invoke _ n args)
  | .binding span _ _ | .expression span _ | .block span _ | .use span _ _ _
  | .program span _ | .blank span _ => by
    rw [evaluatePlain, Node.height]
    exact (Fits.of_levelFree (levelFree_refuse _)).level span

theorem evaluatePlainAll_fits (s : Setting σ) :
    ∀ es : List Node, Fits s.limits (Node.heightAll es) (evaluatePlainAll s es)
  | [] => by
    rw [evaluatePlainAll]
    exact .of_levelFree (levelFree_pure [])
  | e :: es => by
    rw [evaluatePlainAll, Node.heightAll]
    refine ((evaluatePlain_fits s e).mono (Nat.le_max_left _ _)).bind fun v => ?_
    refine ((evaluatePlainAll_fits s es).mono (Nat.le_max_right _ _)).bind fun vs => ?_
    exact .of_levelFree (levelFree_pure _)

end

/-! ## The two ways compared -/

/-- A chain is worked off in a loop, on one level, and this ends as the plain way does unless that one stops
at a limit: same value or failure, same calls of native functions in the same order, same state. So both
ways are equal where the limits leave room for the whole tree. -/
theorem evaluate_eq_plain (s : Setting σ) (e : Node) (m : Machine σ) :
    (∀ span a op b, e = .binary span a op b →
      evaluate s false e m = nested s.limits span (chainLoop s e) m) ∧
    (¬ Limited (evaluatePlain s e m) → evaluate s false e m = evaluatePlain s e m) ∧
      (s.limits.Allows (m.depth + e.height) → evaluate s false e m = evaluatePlain s e m) := by
  have hagree := (evaluatePlain_relaxes s e false).eq_of_not_limited (m := m)
  refine ⟨?_, hagree, fun hroom => ?_⟩
  · rintro span a op b rfl
    rw [evaluate_binary]
  · exact hagree (evaluatePlain_fits s e m hroom).1

/-- A native function that answers how often it has been called. -/
def counter : Native Nat where
  name := "counter::next"
  run := fun _ n => (.value (.int n), n + 1)

/-- The setting in which `counter::next` is the only native function. -/
def counting (limits : Limits) : Setting Nat := ⟨[("counter", [("next", counter)])], limits⟩

/-- A call of `counter::next`. -/
def countingCall : Node := .call none (.path none "counter" "next") []

/-- Three calls in a chain, which the plain way can just evaluate in three levels. -/
theorem evaluate_eq_plain_countingCalls :
    let e : Node := .binary none (.binary none countingCall "-" countingCall) "-" countingCall
    let m : Machine Nat := ⟨{}, 0, 0, [], []⟩
    ¬ Limited (evaluatePlain (counting ⟨3, 3⟩) e m) ∧
      nested ⟨3, 3⟩ none (chainLoop (counting ⟨3, 3⟩) e) m = evaluatePlain (counting ⟨3, 3⟩) e m ∧
      (state (evaluate (counting ⟨3, 3⟩) false e m)).natives = 3 := by
  intro e m
  obtain ⟨hloop, hplain, -⟩ := evaluate_eq_plain (counting ⟨3, 3⟩) e m
  have hfree : ¬ Limited (evaluatePlain (counting ⟨3, 3⟩) e m) := id
  have heq := hplain hfree
  refine ⟨hfree, (hloop _ _ _ _ rfl).symm.trans heq, ?_⟩
  rw [heq]
  rfl

end Eval

end Scriptlet
