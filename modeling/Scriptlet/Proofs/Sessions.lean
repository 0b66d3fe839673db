import Mathlib.Tactic.Common
import Scriptlet.Eval.Interpreter

/-!
# Interpreters that are used again

An interpreter keeps the number of open levels and the lines of the last source text. A run that stops at a
limit leaves levels open, and every run leaves its lines behind. Nothing of this shows in later runs,
whatever came before them.

* `Interpreter.session`: what a host has one interpreter do.
* `Interpreter.sessionAnew`: the same with a new interpreter for each task.
* `Interpreter.session_eq_sessionAnew`: the outcomes are the same.
-/

namespace Scriptlet.Interpreter

variable {σ : Type}

/-! ## Tasks -/

/-- What a host asks of an interpreter: to run a program, or to evaluate an expression in an environment.
Failures quote the source text, if there is one. -/
inductive Task (σ : Type) where
  | program (p : Program) (source : Option String)
  | expression (e : Node) (env : Environment σ) (source : Option String)

/-- Performs a task. -/
def perform (i : Interpreter σ) (natives : σ) : Task σ → Outcome σ
  | .program p source => i.runProgram p source natives
  | .expression e env source => i.runExpression e env source natives

/-- Interpreters that differ at most in what runs leave behind. -/
structure Alike (i j : Interpreter σ) : Prop where
  registry : i.registry = j.registry
  limits : i.limits = j.limits

theorem Alike.trans {i j k : Interpreter σ} (h : Alike i j) (h' : Alike j k) : Alike i k :=
  ⟨h.registry.trans h'.registry, h.limits.trans h'.limits⟩

/-- What is left behind can be anything. -/
theorem exists_of_alike {i j : Interpreter σ} (h : Alike i j) :
    ∃ depth lines, i = { j with depth, lines } := by
  obtain ⟨registry, limits, depth, lines⟩ := i
  obtain ⟨rfl, rfl⟩ := h
  exact ⟨depth, lines, rfl⟩

theorem alike_outcome (i : Interpreter σ) (result : Except Stop Value) (m : Machine σ) :
    Alike (i.outcome result m).interpreter i :=
  ⟨rfl, rfl⟩

/-- A task changes nothing of an interpreter but what it leaves behind. -/
theorem alike_perform (i : Interpreter σ) (natives : σ) (task : Task σ) :
    Alike (i.perform natives task).interpreter i := by
  cases task with
  | program p source =>
    show Alike (i.runProgram p source natives).interpreter i
    unfold runProgram
    split
    · exact alike_outcome i _ _
    · exact alike_outcome i _ _
  | expression e env source =>
    show Alike (i.runExpression e env source natives).interpreter i
    unfold runExpression
    split
    · exact alike_outcome i _ _
    · exact alike_outcome i _ _

/-- What earlier tasks left behind does not show in the outcome of a task: the number of open levels and
the lines are set when it starts. -/
theorem perform_of_alike {i j : Interpreter σ} (h : Alike i j) (natives : σ) (task : Task σ) :
    i.perform natives task = j.perform natives task := by
  obtain ⟨depth, lines, rfl⟩ := exists_of_alike h
  cases task with
  | program p source => rfl
  | expression e env source => rfl

/-! ## Sessions -/

/-- The outcomes of tasks that one interpreter performs one after another. Before each of them the host may
change the state of the native functions by itself. -/
def session (i : Interpreter σ) (natives : σ) : List ((σ → σ) × Task σ) → List (Outcome σ)
  | [] => []
  | (change, task) :: rest =>
    let o := i.perform (change natives) task
    o :: o.interpreter.session o.natives rest

/-- The outcomes of the same tasks if each of them is performed by a new interpreter. -/
def sessionAnew (registry : Registry σ) (limits : Limits) (natives : σ) :
    List ((σ → σ) × Task σ) → List (Outcome σ)
  | [] => []
  | (change, task) :: rest =>
    let o := ({ registry, limits } : Interpreter σ).perform (change natives) task
    o :: sessionAnew registry limits o.natives rest

/-- However it was used before, an interpreter does what a new one would do: all tasks of a session have
the outcomes, with values, failures and the lines they quote, states of the native functions and
environments, that they would have if each were the first task of its interpreter. -/
theorem session_eq_sessionAnew (i : Interpreter σ) (natives : σ)
    (tasks : List ((σ → σ) × Task σ)) :
    i.session natives tasks = sessionAnew i.registry i.limits natives tasks := by
  -- The invariant: the interpreter in use is like the first one.
  suffices h : ∀ j, Alike j i → ∀ natives,
      j.session natives tasks = sessionAnew i.registry i.limits natives tasks from
    h i ⟨rfl, rfl⟩ natives
  induction tasks with
  | nil =>
    intro j _ natives
    rfl
  | cons step tasks ih =>
    intro j hj natives
    obtain ⟨change, task⟩ := step
    have hnew : Alike j { registry := i.registry, limits := i.limits } := ⟨hj.registry, hj.limits⟩
    have houtcome := perform_of_alike hnew (change natives) task
    have hnext := (alike_perform j (change natives) task).trans hj
    rw [session, sessionAnew, ih _ hnext, houtcome]

/-- Things are left behind: an expression that is nested too deep leaves its level open. -/
example (natives : σ) (place : Span) :
    let i : Interpreter σ := ⟨.empty, ⟨1, 1000⟩, 0, []⟩
    let deep : Node := .unary none "-" (.literal (some place) (.int 1))
    let left := (i.perform natives (.expression deep {} (some "- 1"))).interpreter
    left.depth = 1 ∧ left.lines = ["- 1"] := ⟨rfl, rfl⟩

end Scriptlet.Interpreter
