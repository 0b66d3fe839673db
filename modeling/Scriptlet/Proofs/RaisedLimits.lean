import Scriptlet.Proofs.CallOrder

/-!
# Raised limits

Under a higher limit a run does the same, or it goes on where the lower limit stopped it.

* `Eval.Extends x y`: `y` does what `x` does, or `x` stops at its limit and `y` performs all calls that `x`
  performed before any others.
* `Interpreter.runProgram_raised`: what this says of a run.
-/

namespace Scriptlet

namespace Eval

variable {σ α β : Type}

open Result
open scoped List

/-! ## Events that are no calls -/

/-- An event that is no call. -/
theorem performed_record (m : Machine σ) {e : Event σ} (h : performed? e = none) :
    performed (m.record e).trace = performed m.trace := by
  have hnone : performed [e] = [] := by
    rw [performed, List.filterMap_cons_none h, List.filterMap_nil]
  change performed (m.trace ++ [e]) = _
  rw [performed_append, hnone, List.append_nil]

@[simp] theorem performed_enterScope (m : Machine σ) :
    performed m.enterScope.trace = performed m.trace :=
  performed_record { m with env := m.env.push } rfl

@[simp] theorem performed_leaveScope (m : Machine σ) :
    performed m.leaveScope.trace = performed m.trace :=
  performed_record { m with env := m.env.pop } rfl

/-! ## More of the same -/

/-- The first computation stopped at the limit that was set, having performed nothing that the second one
did not perform too, in the same order and first. -/
def Cut (r r' : Result σ α) : Prop :=
  ∃ span m, r = .error (.tooDeep span) m ∧ performed m.trace <+: performed (state r').trace

/-- `y` performs calls after those of the past only, and it does what `x` does unless that one is cut. -/
def Extends (x y : Eval σ α) : Prop :=
  ∀ m, performed m.trace <+: performed (state (y m)).trace ∧ (x m = y m ∨ Cut (x m) (y m))

/-- What leaves the state as it is extends itself. -/
theorem Looks.extends {x : Eval σ α} (h : Looks x) : Extends x x := by
  intro m
  rw [h m]
  exact ⟨List.prefix_refl _, .inl rfl⟩

theorem extends_bindName (name : String) (b : Binding σ) :
    Extends (bindName name b) (bindName name b) :=
  fun _ => ⟨List.prefix_refl _, .inl rfl⟩

theorem extends_invoke (call : Node) (n : Native σ) (args : List Value) :
    Extends (invoke call n args) (invoke call n args) := by
  intro m
  obtain ⟨events, htrace, -⟩ := invokes_invoke (t := False) call n args m
  rw [htrace, performed_append]
  exact ⟨List.prefix_append _ _, .inl rfl⟩

namespace Extends

theorem bind {x y : Eval σ α} {f g : α → Eval σ β} (h : Extends x y)
    (hf : ∀ a, Extends (f a) (g a)) : Extends (x >>= f) (y >>= g) := by
  intro m
  obtain ⟨hpast, hcases⟩ := h m
  -- Whatever `y` performed comes first in what the sequence performs.
  have hgrows : performed (state (y m)).trace <+: performed (state ((y >>= g) m)).trace := by
    cases hy : y m with
    | error stop m' =>
      rw [bind_error hy]
      exact List.prefix_refl _
    | ok a m' =>
      rw [bind_ok hy]
      exact (hf a m').1
  refine ⟨hpast.trans hgrows, ?_⟩
  obtain heq | ⟨span, m', hx, hcut⟩ := hcases
  · cases hy : y m with
    | error stop m' =>
      rw [bind_error hy, bind_error (heq.trans hy)]
      exact .inl rfl
    | ok a m' =>
      rw [bind_ok hy, bind_ok (heq.trans hy)]
      exact (hf a m').2
  · exact .inr ⟨span, m', bind_error hx, hcut.trans hgrows⟩

/-- A change of the state around both computations that tells of no call. -/
theorem mapState {f : Machine σ → Machine σ}
    (hf : ∀ m, performed (f m).trace = performed m.trace) {r r' : Result σ α}
    (h : r = r' ∨ Cut r r') : mapState f r = mapState f r' ∨ Cut (mapState f r) (mapState f r') := by
  obtain rfl | ⟨span, m, rfl, hcut⟩ := h
  · exact .inl rfl
  · refine .inr ⟨span, f m, rfl, ?_⟩
    rw [state_mapState, hf, hf]
    exact hcut

theorem nested {x y : Eval σ α} (h : Extends x y) {limits : Limits} {maxDepth : Nat}
    (hle : limits.maxDepth ≤ maxDepth) (span : Option Span) :
    Extends (nested limits span x) (nested { limits with maxDepth } span y) := by
  intro m
  obtain ⟨hpast, hcases⟩ := h m.descend
  have hgrows : performed m.trace <+:
      performed (state (Eval.nested { limits with maxDepth } span y m)).trace := by
    obtain ⟨stop, hstop⟩ | hdown := nested_cases { limits with maxDepth } span y m
    · rw [hstop]
      exact List.prefix_refl _
    · rw [hdown, state_mapState]
      exact hpast
  refine ⟨hgrows, ?_⟩
  by_cases hmax : limits.maxDepth < m.depth + 1
  · refine .inr ⟨span, m.descend, ?_, hgrows⟩
    unfold Eval.nested
    rw [if_pos hmax]
  · -- Within the lower limit both go one level down, or the host stops both.
    have hmax' : ¬ maxDepth < m.depth + 1 := fun hlt => hmax (Nat.lt_of_le_of_lt hle hlt)
    unfold Eval.nested
    rw [if_neg hmax, if_neg hmax']
    split_ifs with hstack
    · exact .inl rfl
    · rw [andThen_apply, andThen_apply]
      exact mapState (f := Machine.ascend) (fun _ => rfl) hcases

theorem inScope {x y : Eval σ α} (h : Extends x y) : Extends (inScope x) (inScope y) := by
  intro m
  obtain ⟨hpast, hcases⟩ := h m.enterScope
  unfold Eval.inScope
  rw [andThen_apply, andThen_apply]
  refine ⟨?_, mapState performed_leaveScope hcases⟩
  rw [state_mapState, performed_leaveScope, ← performed_enterScope]
  exact hpast

end Extends

/-- Evaluation under a higher limit extends evaluation under a lower one. -/
theorem correspondence_extends (registry : Registry σ) (limits : Limits) {maxDepth : Nat}
    (hle : limits.maxDepth ≤ maxDepth) :
    Correspondence ⟨registry, limits⟩ ⟨registry, { limits with maxDepth }⟩ {} Grading.trivial
      (fun n n' : Native σ => n = n') (fun _ _ => Extends) where
  pure a := (looks_pure a).extends
  decided _ _ v := (looks_pure v).extends
  fail _ span cause _ := (looks_fail span cause).extends
  refuse _ _ _ m := (looks_refuse m).extends
  misplaced _ _ span m := (looks_refuse m).extends.nested hle span
  readName span name := (looks_readName span name).extends
  bind := Extends.bind
  nested h span := h.nested hle span
  inScope := Extends.inScope
  bindValue name v := extends_bindName name _
  bindNative := by
    rintro name n _ rfl
    exact extends_bindName name _
  resolve span _ _ _ hk := (looks_resolve registry span _ _).extends.bind fun n => hk n n rfl
  lookUp span name hk := (looks_callee registry _).extends.bind fun n => hk n n rfl
  invoke := by
    rintro call args n _ rfl
    exact extends_invoke call n args

end Eval

/-! ## Runs -/

/-- Two runs that did the same. The interpreters that made them may have different limits. -/
structure Outcome.Agrees {σ : Type} (o o' : Outcome σ) : Prop where
  result : o.result = o'.result
  env : o.env = o'.env
  natives : o.natives = o'.natives
  trace : o.trace = o'.trace

theorem Outcome.Agrees.symm {σ : Type} {o o' : Outcome σ} (h : o.Agrees o') : o'.Agrees o :=
  ⟨h.result.symm, h.env.symm, h.natives.symm, h.trace.symm⟩

/-- Runs that did the same end with the same value or error, unless that error tells of a limit. -/
theorem Outcome.Agrees.value_eq {σ : Type} {o o' : Outcome σ} (h : o.Agrees o')
    (hlimit : ∀ stop, o'.result = .error stop → stop.isLimit = false) (span : Option Span) :
    o.value span = o'.value span := by
  unfold Outcome.value
  rw [h.result]
  cases hresult : o'.result with
  | ok v => rfl
  | error stop =>
    have hstop := hlimit stop hresult
    cases stop with
    | failure f | malformed m | exception kind => rfl
    | tooDeep place | exhausted => cases hstop

namespace Interpreter

variable {σ : Type}

open Eval
open scoped List

/-- The interpreter with another limit set. -/
def withMaxDepth (i : Interpreter σ) (m : Nat) : Interpreter σ :=
  { i with limits := { i.limits with maxDepth := m } }

/-- Under a higher limit a run is the same, or it performs the calls of the run that was cut first. -/
theorem runProgram_cases (i : Interpreter σ) (p : Program) (source : Option String) (natives : σ)
    {m m' : Nat} (hle : m ≤ m') :
    let run (m : Nat) := (i.withMaxDepth m).runProgram p source natives
    (run m').Agrees (run m) ∨
      ∃ span, (run m).result = .error (.tooDeep span) ∧
        performed (run m).trace <+: performed (run m').trace := by
  intro run
  have hextends : Extends (executeAll (i.withMaxDepth m).setting .unit p.statements)
      (executeAll (i.withMaxDepth m').setting .unit p.statements) :=
    (correspondence_extends i.registry (i.withMaxDepth m).limits hle).executeAll p.statements .unit
      fun e _ => .nothing e
  obtain ⟨-, heq | ⟨span, m₁, hcut, hcalls⟩⟩ :=
    hextends (start source {} natives [.started p.statements.length])
  · refine .inl ?_
    simp only [run, runProgram, heq]
    cases executeAll (i.withMaxDepth m').setting .unit p.statements
        (start source {} natives [.started p.statements.length]) with
    | ok v m₁ => exact ⟨rfl, rfl, rfl, rfl⟩
    | error stop m₁ => exact ⟨rfl, rfl, rfl, rfl⟩
  · refine .inr ⟨span, by simp only [run, runProgram, hcut]; rfl, ?_⟩
    have htrace : (run m).trace = m₁.trace := by
      simp only [run, runProgram, hcut]
      rfl
    rw [htrace]
    refine hcalls.trans ?_
    simp only [run, runProgram]
    cases executeAll (i.withMaxDepth m').setting .unit p.statements
        (start source {} natives [.started p.statements.length]) with
    | ok v m₂ =>
      have hfinished : performed (m₂.record (.finished v)).trace = performed m₂.trace :=
        performed_record m₂ rfl
      exact hfinished ▸ List.prefix_refl _
    | error stop m₂ => exact List.prefix_refl _

/-- A run that does not stop at a limit is the same run under a higher one. -/
theorem runProgram_of_le (i : Interpreter σ) (p : Program) (source : Option String) (natives : σ)
    {m m' : Nat} (hle : m ≤ m')
    (h : ∀ stop, ((i.withMaxDepth m).runProgram p source natives).result = .error stop →
      stop.isLimit = false) :
    ((i.withMaxDepth m').runProgram p source natives).Agrees
      ((i.withMaxDepth m).runProgram p source natives) := by
  obtain hagrees | ⟨span, hcut, -⟩ := runProgram_cases i p source natives hle
  · exact hagrees
  · cases h _ hcut

/-- Raising the limit changes nothing about a run that the limit did not stop: it ends with the same value
or error, in the same state and after the same calls of native functions. The calls of a run that the limit
did stop are the first ones of the run under the higher limit. -/
theorem runProgram_raised (i : Interpreter σ) (p : Program) (source : Option String) (natives : σ)
    (m m' : Nat) (hle : m ≤ m') :
    let run (m : Nat) := (i.withMaxDepth m).runProgram p source natives
    ((∀ span, (run m).result ≠ .error (.tooDeep span)) →
      (run m').Agrees (run m) ∧
      ((run m).result ≠ .error .exhausted → (run m').value p.span = (run m).value p.span)) ∧
    ∀ span, (run m).result = .error (.tooDeep span) →
      performed (run m).trace <+: performed (run m').trace := by
  intro run
  obtain hagrees | ⟨place, hcut, hcalls⟩ := runProgram_cases i p source natives hle
  · refine ⟨fun hdeep => ⟨hagrees, fun hhost => ?_⟩, fun span _ => ?_⟩
    · refine hagrees.value_eq (fun stop hstop => ?_) p.span
      cases stop with
      | tooDeep span => exact absurd hstop (hdeep span)
      | exhausted => exact absurd hstop hhost
      | failure f | malformed f | exception kind => rfl
    · exact hagrees.trace ▸ List.prefix_refl _
  · exact ⟨fun hdeep => absurd hcut (hdeep place), fun _ _ => hcalls⟩

/-- Under a limit of two levels the second of two calls is one level too deep, and the first one has been
performed. A limit of three levels is enough, and any more change nothing. -/
theorem runProgram_raised_secondCall :
    let i : Interpreter Nat := ⟨(counting ⟨9, 1000⟩).registry, ⟨9, 1000⟩, 0, []⟩
    let p : Program := ⟨none, [.expression none
      (.tuple none [countingCall, .unary none "-" countingCall])]⟩
    let run (m : Nat) := (i.withMaxDepth m).runProgram p none 5
    (run 2).result = .error (.tooDeep none) ∧ (performed (run 2).trace).length = 1 ∧
      performed (run 2).trace <+: performed (run 3).trace ∧
      (run 3).result = .ok (.tuple [.int 5, .int (-6)]) ∧ (run 20).Agrees (run 3) ∧
      (run 20).value none = (run 3).value none := by
  intro i p run
  have hcut := (runProgram_raised i p none 5 2 3 (by decide)).2 none rfl
  have hsame := (runProgram_raised i p none 5 3 20 (by decide)).1 (fun _ h => by cases h)
  exact ⟨rfl, rfl, hcut, rfl, hsame.1, hsame.2 (fun h => by cases h)⟩

end Interpreter

end Scriptlet
