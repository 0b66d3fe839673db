import Scriptlet.Proofs.Scopes

/-!
# What a statement writes

A statement writes to one place at most: a binding or a `use` that ends well sets its name in the innermost
scope. All else leaves the chain of scopes as it was, and so does whatever stops.

* `Environment.Sets name b before after`: `after` is `before` with `b` at `name` in its innermost scope.
* `Stores name bound before r`: the result `r` set `name`, or it stopped and set nothing.
* `effect_on_scopes`: expressions, statements, blocks, bindings and `use` statements.
-/

namespace Scriptlet

namespace Environment

variable {σ : Type}

/-- The innermost scope has the binding `b` at `name`, and nothing else is changed. -/
structure Sets (name : String) (b : Binding σ) (before after : Environment σ) : Prop where
  outer_eq : after.outer = before.outer
  get?_self : after.inner.get? name = some b
  get?_other : ∀ other, other ≠ name → after.inner.get? other = before.inner.get? other
  keys_eq : after.inner.keys =
    if name ∈ before.inner.keys then before.inner.keys else before.inner.keys ++ [name]

theorem sets_bind (e : Environment σ) (name : String) (b : Binding σ) :
    e.Sets name b (e.bind name b) where
  outer_eq := rfl
  get?_self := Assoc.get?_put_self e.inner name b
  get?_other _ hother := Assoc.get?_put_of_ne e.inner b hother
  keys_eq := Assoc.keys_put e.inner name b

end Environment

namespace Eval

variable {σ α : Type}

open Result

/-- A computation that started in the environment `before` set `name` to one of the bindings `bound`, or it
stopped and left the environment as it was. -/
def Stores (name : String) (bound : Binding σ → Prop) (before : Environment σ) : Result σ α → Prop
  | .ok _ m => ∃ b, bound b ∧ before.Sets name b m.env
  | .error _ m => m.env = before

/-- What is computed is bound afterwards. It is bound in the environment of the beginning, since computing
it changed nothing there. -/
theorem stores_bindName {x : Eval σ α} (hx : Keeps id x) (make : α → Binding σ) (name : String)
    (m : Machine σ) :
    Stores name (fun b => ∃ a m', x m = .ok a m' ∧ b = make a) m.env
      ((x >>= fun a => bindName name (make a) >>= fun _ => pure Value.unit) m) := by
  have henv := (hx m).2
  cases hresult : x m with
  | error stop m' =>
    rw [hresult] at henv
    rw [bind_error hresult]
    exact henv
  | ok a m' =>
    rw [hresult] at henv
    rw [bind_ok hresult]
    have hset : bindName name (make a) m' = .ok () { m' with env := m'.env.bind name (make a) } := rfl
    rw [bind_ok hset]
    refine ⟨make a, ⟨a, m', rfl, rfl⟩, ?_⟩
    show m.env.Sets name (make a) (m'.env.bind name (make a))
    rw [show m'.env = m.env from henv]
    exact m.env.sets_bind name (make a)

theorem Stores.mono {name : String} {bound bound' : Binding σ → Prop} {before : Environment σ}
    {r : Result σ α} (h : Stores name bound before r) (hbound : ∀ b, bound b → bound' b) :
    Stores name bound' before r := by
  cases r with
  | ok a m =>
    obtain ⟨b, hb, hsets⟩ := h
    exact ⟨b, hbound b hb, hsets⟩
  | error stop m => exact h

section

variable (s : Setting σ) (m : Machine σ)

theorem evaluate_env (e : Node) (chained : Bool) : (state (evaluate s chained e m)).env = m.env :=
  (evaluate_keeps s id e chained m).2

theorem execute_outer (e : Node) : (state (execute s e m)).env.outer = m.env.outer :=
  (execute_keeps s e m).2

/-- The scope of a block is gone when the block ends, and nothing was written to another one. -/
theorem execute_block_env (span : Option Span) (es : List Node) :
    (state (execute s (.block span es) m)).env = m.env := by
  have hbody : Keeps Environment.outer (executeAll s .unit es) := executeAll_keeps s es .unit
  have hblock : Keeps id (nested s.limits span (inScope (executeAll s .unit es))) :=
    hbody.inScope.nested s.limits span
  rw [execute]
  exact (hblock m).2

theorem execute_binding_stores (span : Option Span) (name : String) (e : Node) :
    Stores name (fun b => ∃ v m', evaluate s false e m = .ok v m' ∧ b = .value v) m.env
      (execute s (.binding span name e) m) := by
  rw [execute]
  exact stores_bindName (evaluate_keeps s id e false) Binding.value name m

theorem execute_use_stores (span : Option Span) (module symbol : String) (newName : Option String) :
    Stores (Node.boundName symbol newName)
      (fun b => ∃ n, s.registry.find? module symbol = some n ∧ b = .native n) m.env
      (execute s (.use span module symbol newName) m) := by
  rw [execute]
  have hresolve : Keeps id (resolve s.registry span module symbol) :=
    (looks_resolve s.registry span module symbol).keeps
  refine (stores_bindName hresolve Binding.native _ m).mono ?_
  rintro b ⟨n, m', hn, rfl⟩
  exact ⟨n, (find?_of_resolve hn).1, rfl⟩

/-- Evaluation writes to the innermost scope only, whether or not it ends well. An expression writes nothing.
A statement leaves the number of scopes and all scopes but the innermost one as they were, and a block leaves
that one too, wherever in it something stops. A binding or a `use` that stops writes nothing; one that ends
well sets its name and no other. -/
theorem effect_on_scopes :
    (∀ e chained, (state (evaluate s chained e m)).env = m.env) ∧
    (∀ e, (state (execute s e m)).env.depth = m.env.depth ∧
      (state (execute s e m)).env.outer = m.env.outer) ∧
    (∀ span es, (state (execute s (.block span es) m)).env = m.env) ∧
    (∀ span name e,
      Stores name (fun b => ∃ v m', evaluate s false e m = .ok v m' ∧ b = .value v) m.env
        (execute s (.binding span name e) m)) ∧
    ∀ span module symbol newName,
      Stores (Node.boundName symbol newName)
        (fun b => ∃ n, s.registry.find? module symbol = some n ∧ b = .native n) m.env
        (execute s (.use span module symbol newName) m) := by
  refine ⟨evaluate_env s m, fun e => ⟨?_, execute_outer s m e⟩, execute_block_env s m,
    execute_binding_stores s m, execute_use_stores s m⟩
  show (state (execute s e m)).env.outer.length = m.env.outer.length
  rw [execute_outer]

end

end Eval

end Scriptlet
