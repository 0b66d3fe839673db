import Scriptlet.Proofs.LexicalScope
import Scriptlet.Proofs.RaisedLimits

/-!
# Registries with more functions

A program that runs without missing a native function does not notice further ones: over a registry with
more modules and more symbols it does the same. Only where a path leads nowhere can the two runs part.

* `Registry.ExtendedBy`: a registry with more modules, and more symbols in them.
* `Eval.Unresolved s q f`: at the point `q` a path leads to no native function, and `f` is the failure.
* `Eval.executeAll_extended`: over the larger registry the same is done, if every path leads somewhere.
* `Interpreter.runProgram_extended`: what this says of runs.
-/

namespace Scriptlet

variable {σ : Type}

/-! ## Registries -/

/-- All modules of `r` are modules of `r'`, and there their symbols stand for the same native functions. -/
def Registry.ExtendedBy (r r' : Registry σ) : Prop :=
  ∀ module table, r.get? module = some table → ∃ table', r'.get? module = some table' ∧
    ∀ symbol native, table.get? symbol = some native → table'.get? symbol = some native

theorem Registry.ExtendedBy.find? {r r' : Registry σ} (h : r.ExtendedBy r') {module symbol : String}
    {n : Native σ} (hn : r.find? module symbol = some n) : r'.find? module symbol = some n := by
  obtain ⟨table, htable, hsymbol⟩ := Option.bind_eq_some_iff.1 hn
  obtain ⟨table', htable', hsame⟩ := h module table htable
  exact Option.bind_eq_some_iff.2 ⟨table', htable', hsame symbol n hsymbol⟩

namespace Eval

variable {α β : Type} {s : Setting σ}

open Result

/-! ## Paths that lead nowhere -/

theorem Missing.code {registry : Registry σ} {module symbol : String} {cause : Cause}
    (h : Missing registry module symbol cause) : cause.code ∈ ["E401", "E402"] := by
  cases h with
  | module => exact List.mem_cons_self
  | symbol => exact List.mem_cons_of_mem _ List.mem_cons_self

/-- At a point of a run a path is resolved: that of a `use`, or that of a callee. -/
inductive Resolves (s : Setting σ) : Point σ → Option Span → String → String → Prop
  | use {F : List (Frame σ)} {span : Option Span} {module symbol : String} {newName : Option String}
      {m : Machine σ} :
      Resolves s ⟨F, .statement (.use span module symbol newName), m⟩ span module symbol
  | callee {F : List (Frame σ)} {c : Bool} {place span : Option Span} {module symbol : String}
      {es : List Node} {m : Machine σ} : s.limits.Allows (m.depth + 1) →
      Resolves s ⟨F, .expression c (.call place (.path span module symbol) es), m⟩ span module symbol

/-- At a point of a run a path is resolved and leads to no native function; `f` is the failure. -/
def Unresolved (s : Setting σ) (q : Point σ) (f : Failure) : Prop :=
  ∃ span module symbol cause, Resolves s q span module symbol ∧
    Missing s.registry module symbol cause ∧ f = .atSpan q.machine.lines span cause

/-- A path that leads nowhere stops the work at its point. -/
theorem Unresolved.stops {q : Point σ} {f : Failure} (h : Unresolved s q f) :
    stop? s q = some (.failure f) := by
  obtain ⟨span, module, symbol, cause, hresolves, hmissing, rfl⟩ := h
  have hstop (m : Machine σ) : Result.stop? (resolve s.registry span module symbol m) =
      some (.failure (.atSpan m.lines span cause)) := by
    rw [resolve_of_missing hmissing]
    rfl
  cases hresolves with
  | use =>
    rw [stop?, execute]
    exact stop?_bind_of_stop (hstop _)
  | @callee F c place _ _ _ es m hroom =>
    rw [stop?, evaluate, stop?_nested hroom]
    exact stop?_bind_of_stop (hstop m.descend)

/-- From a point on, every path that the run resolves leads to a native function. -/
def Resolved (s : Setting σ) (q : Point σ) : Prop := ∀ q' f, Reaches s q q' → ¬ Unresolved s q' f

theorem Resolved.step {a b : Point σ} (h : Resolved s a) (hstep : Step s a b) : Resolved s b :=
  fun q f hreach => h q f (.head hstep hreach)

theorem Resolved.find? {q : Point σ} {span : Option Span} {module symbol : String} (h : Resolved s q)
    (hq : Resolves s q span module symbol) : ∃ n, s.registry.find? module symbol = some n := by
  cases hfind : s.registry.find? module symbol with
  | some n => exact ⟨n, rfl⟩
  | none =>
    obtain ⟨cause, hmissing⟩ := exists_missing hfind
    exact absurd ⟨span, module, symbol, cause, hq, hmissing, rfl⟩ (h q _ .refl)

/-! ## The same over the larger registry -/

variable {registry' : Registry σ}

/-- A path that leads to a native function leads to the same one in the larger registry. -/
theorem resolve_extended (h : s.registry.ExtendedBy registry') {q : Point σ} {span : Option Span}
    {module symbol : String} (hq : Resolved s q) (hresolves : Resolves s q span module symbol) :
    resolve s.registry span module symbol = resolve registry' span module symbol := by
  obtain ⟨n, hn⟩ := hq.find? hresolves
  rw [resolve_of_find? hn, resolve_of_find? (h.find? hn)]

theorem callee_extended (h : s.registry.ExtendedBy registry') {F : List (Frame σ)} {c : Bool}
    {span : Option Span} {f : Node} {es : List Node} {m : Machine σ}
    (hroom : s.limits.Allows (m.depth + 1)) (hq : Resolved s ⟨F, .expression c (.call span f es), m⟩) :
    callee s.registry f = callee registry' f := by
  cases f with
  | path place module symbol => exact resolve_extended h hq (.callee hroom)
  | _ => rfl

/-- Where every path leads somewhere, the larger registry makes no difference. -/
theorem along_extended (h : s.registry.ExtendedBy registry') :
    Along s ⟨registry', s.limits⟩ (Resolved s) (fun _ r r' => r = r') where
  step hq hstep := hq.step hstep
  ok _ _ := rfl
  fail _ _ _ _ := rfl
  refuse _ _ := rfl
  bind {_ _ x y f g m} hxy hfg := by
    cases hx : x m with
    | error stop m' => rw [bind_error hx, bind_error (hxy.symm.trans hx)]
    | ok a m' =>
      rw [bind_ok hx, bind_ok (hxy.symm.trans hx)]
      exact hfg a m' hx
  nested span hxy := by
    unfold nested
    split_ifs with hmax hstack
    · rfl
    · rfl
    · rw [andThen_apply, andThen_apply, hxy ⟨Nat.not_lt.1 hmax, Nat.not_lt.1 hstack⟩]
  inScope hxy := by
    unfold inScope
    rw [andThen_apply, andThen_apply, hxy]
  readName _ _ := rfl
  resolve hq := congrFun (resolve_extended h hq .use) _
  callee hq hroom := congrFun (callee_extended h hroom hq) _
  invoke _ _ _ _ := rfl

/-- Statements do the same over the larger registry. -/
theorem executeAll_extended (h : s.registry.ExtendedBy registry') (earlier : Frame σ)
    (F : List (Frame σ)) (es : List Node) (last : Value) (m : Machine σ)
    (hq : Resolved s ⟨earlier :: F, .statements last es, m⟩) :
    executeAll s last es m = executeAll ⟨registry', s.limits⟩ last es m :=
  (along_extended h).executeAll earlier F es last m hq

end Eval

/-! ## Runs -/

namespace Interpreter

open Eval

/-- The run ends with E401 or E402, and the failure comes from a path that was resolved. -/
def EndsUnresolved (i : Interpreter σ) (p : Program) (source : Option String) (natives : σ) : Prop :=
  ∃ f q, (i.runProgram p source natives).result = .error (.failure f) ∧
    f.cause.code ∈ ["E401", "E402"] ∧ Reaches i.setting (beginning p source natives) q ∧
    Unresolved i.setting q f

theorem resolved_beginning {i : Interpreter σ} {p : Program} {source : Option String} {natives : σ}
    (h : ¬ i.EndsUnresolved p source natives) :
    Resolved i.setting (beginning p source natives) := by
  intro q f hreach hq
  refine h ⟨f, q, ?_, ?_, hreach, hq⟩
  · exact (stop?_beginning i p source natives _).1 (hreach.stops hq.stops)
  · obtain ⟨_, _, _, _, -, hmissing, rfl⟩ := hq
    exact hmissing.code

/-- Unless it ends because a path leads to no native function, a run does the same over a registry with more
modules and more symbols: it ends with the same value or error, in the same state of the native functions,
and after the same calls of the same functions with the same arguments. -/
theorem runProgram_extended (i : Interpreter σ) (registry' : Registry σ)
    (hregistry : i.registry.ExtendedBy registry') (p : Program) (source : Option String) (natives : σ)
    (hresolved : ¬ i.EndsUnresolved p source natives) :
    let o := i.runProgram p source natives
    let o' := { i with registry := registry' }.runProgram p source natives
    o'.value p.span = o.value p.span ∧ performed o'.trace = performed o.trace ∧ o'.Agrees o := by
  intro o o'
  let first := start source {} natives [.started p.statements.length]
  have hsame : executeAll i.setting .unit p.statements first =
      executeAll ({ i with registry := registry' } : Interpreter σ).setting .unit p.statements first :=
    executeAll_extended hregistry [] [] p.statements .unit first (resolved_beginning hresolved)
  have hrun : o'.value p.span = o.value p.span ∧ o'.Agrees o := by
    simp only [o, o', runProgram, ← hsame, first]
    cases executeAll i.setting .unit p.statements
        (start source {} natives [.started p.statements.length]) with
    | ok v m => exact ⟨rfl, rfl, rfl, rfl, rfl⟩
    | error stop m => exact ⟨rfl, rfl, rfl, rfl, rfl⟩
  exact ⟨hrun.1, congrArg performed hrun.2.trace, hrun.2⟩

/-- A native function that answers as if there were no such function. -/
def denier : Native Nat where
  name := "gate::open"
  run := fun _ n => (.failure (.ofCause (.unknownModule "gate" "open")), n + 10)

/-- The failure E401 of a native function is no missing path: the run is the same over more functions. -/
theorem runProgram_extended_denied :
    let small : Registry Nat := [("counter", [("next", counter)]), ("gate", [("open", denier)])]
    let large : Registry Nat := [("gate", [("next", counter), ("open", denier)]), ("more", []),
      ("counter", [("next", counter)])]
    let i : Interpreter Nat := ⟨small, ⟨9, 1000⟩, 0, []⟩
    let p : Program := ⟨none, [.use none "gate" "open" (some "x"),
      .block none [.expression none (.call none (.name none "x") [countingCall])]]⟩
    let o := i.runProgram p none 5
    let o' := { i with registry := large }.runProgram p none 5
    small.ExtendedBy large ∧ ¬ i.EndsUnresolved p none 5 ∧
      o.result = .error (.failure (.ofCause (.unknownModule "gate" "open"))) ∧ o.natives = 16 ∧
      o'.value none = o.value none ∧ performed o'.trace = performed o.trace ∧ o'.Agrees o := by
  intro small large i p o o'
  have hextended : small.ExtendedBy large := by
    intro module table htable
    have hmem := Assoc.mem_of_get? htable
    simp only [small, List.mem_cons, Prod.mk.injEq, List.not_mem_nil, or_false] at hmem
    rcases hmem with ⟨rfl, rfl⟩ | ⟨rfl, rfl⟩
    · exact ⟨_, rfl, fun _ _ h => h⟩
    · refine ⟨_, rfl, fun symbol native h => ?_⟩
      have hentry := Assoc.mem_of_get? h
      simp only [List.mem_cons, Prod.mk.injEq, List.not_mem_nil, or_false] at hentry
      obtain ⟨rfl, rfl⟩ := hentry
      rfl
  have hresult : o.result = .error (.failure (.ofCause (.unknownModule "gate" "open"))) := rfl
  have hresolved : ¬ i.EndsUnresolved p none 5 := by
    rintro ⟨f, q, hf, -, -, span, module, symbol, cause, -, hmissing, rfl⟩
    -- The module that the failure names is registered.
    have hcause : cause = .unknownModule "gate" "open" := by
      have hsame := hf.symm.trans hresult
      simp only [Except.error.injEq, Stop.failure.injEq] at hsame
      exact congrArg Failure.cause hsame
    subst hcause
    cases hmissing with
    | module hnone => cases hnone
  exact ⟨hextended, hresolved, hresult, rfl,
    runProgram_extended i large hextended p none 5 hresolved⟩

end Interpreter

end Scriptlet
