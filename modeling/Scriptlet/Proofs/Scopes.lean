import Scriptlet.Proofs.Correspondence

/-!
# What evaluation does to scopes

Expressions leave the environment as it is, and statements change its innermost scope only: a block is
executed in a scope of its own, which is gone when the block ends, whether or not it ends well.

* `Keeps view x`: `x` changes nothing that can be seen of the environment through `view`.
* `evaluate_keeps`, `execute_keeps`: the two statements above.
-/

namespace Scriptlet.Eval

variable {σ α β γ : Type}

open Result

/-- `x` changes neither the lines that failures quote nor what `view` shows of the environment. -/
def Keeps (view : Environment σ → γ) (x : Eval σ α) : Prop :=
  ∀ m, (state (x m)).lines = m.lines ∧ view (state (x m)).env = view m.env

theorem Looks.keeps {view : Environment σ → γ} {x : Eval σ α} (h : Looks x) : Keeps view x := by
  intro m
  rw [h m]
  exact ⟨rfl, rfl⟩

namespace Keeps

variable {view : Environment σ → γ}

theorem of_ok {x : Eval σ α} (h : Keeps view x) {m m' : Machine σ} {a : α} (hx : x m = .ok a m') :
    m'.lines = m.lines ∧ view m'.env = view m.env := by
  have hm := h m
  rw [hx] at hm
  exact hm

/-- What leaves the environment as it is keeps all that can be seen of it. -/
theorem of_id {x : Eval σ α} (h : Keeps id x) : Keeps view x :=
  fun m => ⟨(h m).1, congrArg view (h m).2⟩

theorem bind {x : Eval σ α} {f : α → Eval σ β} (h : Keeps view x) (hf : ∀ a, Keeps view (f a)) :
    Keeps view (x >>= f) := by
  intro m
  obtain ⟨hlines, henv⟩ := h m
  cases hx : x m with
  | error stop m' =>
    rw [hx] at hlines henv
    rw [bind_error hx]
    exact ⟨hlines, henv⟩
  | ok a m' =>
    rw [hx] at hlines henv
    rw [bind_ok hx]
    obtain ⟨hlines', henv'⟩ := hf a m'
    exact ⟨hlines'.trans hlines, henv'.trans henv⟩

theorem nested {x : Eval σ α} (h : Keeps view x) (limits : Limits) (span : Option Span) :
    Keeps view (nested limits span x) := by
  intro m
  obtain ⟨stop, hstop⟩ | hdown := nested_cases limits span x m
  · rw [hstop]
    exact ⟨rfl, rfl⟩
  · rw [hdown, state_mapState]
    exact h m.descend

/-- The innermost scope of a computation in a scope of its own is gone afterwards. -/
theorem inScope {x : Eval σ α} (h : Keeps Environment.outer x) :
    Keeps view (inScope x) := by
  refine of_id fun m => ?_
  obtain ⟨hlines, houter⟩ := h m.enterScope
  unfold Eval.inScope
  rw [andThen_apply, state_mapState]
  refine ⟨hlines, ?_⟩
  change (state (x m.enterScope)).env.pop = m.env
  unfold Environment.pop
  rw [houter]
  rfl

end Keeps

theorem keeps_bindName (name : String) (b : Binding σ) :
    Keeps Environment.outer (bindName name b) :=
  fun _ => ⟨rfl, rfl⟩

theorem keeps_invoke (view : Environment σ → γ) (call : Node) (n : Native σ) (args : List Value) :
    Keeps view (invoke call n args) := by
  intro m
  rw [state_invoke]
  exact ⟨rfl, rfl⟩

section

variable (s : Setting σ) (view : Environment σ → γ)

/-- The steps of an expression leave the environment as it is. -/
theorem expressionRules_keeps :
    ExpressionRules s s {} Grading.trivial Eq (fun _ _ x _ => Keeps view x) where
  pure a := (looks_pure a).keeps
  decided _ _ v := (looks_pure v).keeps
  fail _ span cause _ := (looks_fail span cause).keeps
  refuse _ _ _ m := (looks_refuse m).keeps
  misplaced _ _ span m := (looks_refuse m).keeps.nested s.limits span
  readName span name := (looks_readName span name).keeps
  bind hx hf := hx.bind hf
  nested hx span := hx.nested s.limits span
  resolve span _ _ _ hk := (looks_resolve s.registry span _ _).keeps.bind fun n => hk n n rfl
  lookUp _ _ hk := (looks_callee s.registry _).keeps.bind fun n => hk n n rfl
  invoke call args n _ _ := keeps_invoke view call n args

/-- The steps of a statement change the innermost scope only. -/
theorem correspondence_keeps :
    Correspondence s s {} Grading.trivial Eq (fun _ _ x _ => Keeps Environment.outer x) where
  toExpressionRules := expressionRules_keeps s Environment.outer
  inScope hx := hx.inScope
  bindValue name _ := keeps_bindName name _
  bindNative name _ _ _ := keeps_bindName name _

/-- An expression leaves the environment as it is. -/
theorem evaluate_keeps (e : Node) (chained : Bool) : Keeps view (evaluate s chained e) :=
  (expressionRules_keeps s view).evaluate e chained (.nothing e)

/-- A statement changes the innermost scope only. -/
theorem execute_keeps (e : Node) : Keeps Environment.outer (execute s e) :=
  (correspondence_keeps s).execute e (.nothing e)

theorem executeAll_keeps (es : List Node) (last : Value) :
    Keeps Environment.outer (executeAll s last es) :=
  (correspondence_keeps s).executeAll es last fun e _ => .nothing e

end

end Scriptlet.Eval
