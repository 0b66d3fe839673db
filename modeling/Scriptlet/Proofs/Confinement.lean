import Scriptlet.Proofs.RaisedLimits
import Scriptlet.Proofs.Sessions
import Scriptlet.Proofs.Stages
import Scriptlet.Proofs.StandardNatives

/-!
# What a program can reach

A program calls a native function by its path, or by a name that a `use` of its path has bound. So it can
call only the functions whose paths are in its text, however names are bound anew and shadowed, and what
all of these functions keep is kept by every run.

* `Eval.Kept`: what native functions of a class keep, as long as they return values and at the end.
* `Interpreter.runProgram_upholds`: a run keeps what the functions on its paths keep.
* `Interpreter.runProgram_confined`: the functions that a run invokes, and programs that only read.
-/

namespace Scriptlet

namespace Eval

variable {σ α β : Type}

open Result

/-- What native functions of `P` keep. `K` and `L` are about the state of the native functions and the
calls performed so far: `K` is kept by calls that return a value, and `L` is what is left of it after one
that does not. -/
structure Kept (P : Native σ → Prop) (K L : σ → List (Node × Native σ × List Value) → Prop) :
    Prop where
  weaken : ∀ {s calls}, K s calls → L s calls
  value : ∀ {n s calls}, P n → K s calls → ∀ call args v, (n.invoke args s).1 = .ok v →
    K (n.invoke args s).2 (calls ++ [(call, n, args)])
  trouble : ∀ {n s calls}, P n → K s calls → ∀ call args t, (n.invoke args s).1 = .error t →
    L (n.invoke args s).2 (calls ++ [(call, n, args)])

/-- What is kept by all calls. -/
theorem Kept.always {P : Native σ → Prop} {K : σ → List (Node × Native σ × List Value) → Prop}
    (h : ∀ {n s calls}, P n → K s calls → ∀ call args,
      K (n.invoke args s).2 (calls ++ [(call, n, args)])) : Kept P K K :=
  ⟨id, fun hn hK call args _ _ => h hn hK call args, fun hn hK call args _ _ => h hn hK call args⟩

variable {P : Native σ → Prop} {K L : σ → List (Node × Native σ × List Value) → Prop}

/-- `K` holds of a state in which names stand for native functions of `P` only. -/
def Safe (P : Native σ → Prop) (K : σ → List (Node × Native σ × List Value) → Prop)
    (m : Machine σ) : Prop :=
  m.env.Holds P ∧ K m.natives (performed m.trace)

/-- A computation that leads from safe states to safe states, or stops in a state with `L`. -/
def Upholds (P : Native σ → Prop) (K L : σ → List (Node × Native σ × List Value) → Prop)
    (x : Eval σ α) : Prop :=
  ∀ m, Safe P K m →
    match x m with
    | .ok _ m' => Safe P K m'
    | .error _ m' => L m'.natives (performed m'.trace)

/-! ## Steps -/

theorem Looks.upholds {x : Eval σ α} (hx : Looks x) (h : Kept P K L) : Upholds P K L x := by
  intro m hm
  have hstate := hx m
  cases hr : x m with
  | ok a m' =>
    rw [hr] at hstate
    cases hstate
    exact hm
  | error stop m' =>
    rw [hr] at hstate
    cases hstate
    exact h.weaken hm.2

theorem upholds_bindName {b : Binding σ} (hb : ∀ n, b = .native n → P n) (name : String) :
    Upholds P K L (bindName name b) :=
  fun _ hm => ⟨hm.1.bind hb name, hm.2⟩

theorem performed_called (m : Machine σ) (call : Node) (n : Native σ) (args : List Value) :
    performed (m.called call n args).trace = performed m.trace ++ [(call, n, args)] := by
  refine (performed_append _ _).trans ?_
  cases (n.run args m.natives).1 <;> rfl

theorem upholds_invoke (h : Kept P K L) {n : Native σ} (hn : P n) (call : Node) (args : List Value) :
    Upholds P K L (invoke call n args) := by
  intro m hm
  have hvalue := h.value hn hm.2 call args
  have htrouble := h.trouble hn hm.2 call args
  rw [← performed_called m call n args] at hvalue htrouble
  rw [invoke_apply]
  cases hsettle : (n.run args m.natives).1.settle n.name with
  | ok v => exact ⟨hm.1, hvalue v hsettle⟩
  | error trouble => exact htrouble trouble hsettle

namespace Upholds

theorem bind {x : Eval σ α} {f : α → Eval σ β} (hx : Upholds P K L x) (hf : ∀ a, Upholds P K L (f a)) :
    Upholds P K L (x >>= f) := by
  intro m hm
  have hx := hx m hm
  cases hr : x m with
  | error stop m' =>
    rw [hr] at hx
    rw [bind_error hr]
    exact hx
  | ok a m' =>
    rw [hr] at hx
    rw [bind_ok hr]
    exact hf a m' hx

theorem nested {x : Eval σ α} (hx : Upholds P K L x) (h : Kept P K L) (limits : Limits)
    (span : Option Span) : Upholds P K L (nested limits span x) := by
  intro m hm
  have hx := hx m.descend hm
  obtain ⟨stop, hstop⟩ | hdown := nested_cases limits span x m
  · rw [hstop]
    exact h.weaken hm.2
  · rw [hdown]
    cases hr : x m.descend with
    | error stop m' => rw [hr] at hx; exact hx
    | ok a m' => rw [hr] at hx; exact hx

theorem inScope {x : Eval σ α} (hx : Upholds P K L x) : Upholds P K L (inScope x) := by
  intro m hm
  have henter : Safe P K m.enterScope := by
    refine ⟨hm.1.push, ?_⟩
    rw [performed_enterScope]
    exact hm.2
  have hx := hx m.enterScope henter
  unfold Eval.inScope
  rw [andThen_apply]
  cases hr : x m.enterScope with
  | error stop m' =>
    rw [hr] at hx
    change L m'.natives (performed m'.leaveScope.trace)
    rw [performed_leaveScope]
    exact hx
  | ok a m' =>
    rw [hr] at hx
    refine ⟨hx.1.pop, ?_⟩
    rw [performed_leaveScope]
    exact hx.2

/-- A path leads to a function of the registry. -/
theorem resolve_bind {registry : Registry σ} {span : Option Span} {module symbol : String}
    {k : Native σ → Eval σ Value} (h : Kept P K L)
    (hP : ∀ n, registry.find? module symbol = some n → P n) (hk : ∀ n, P n → Upholds P K L (k n)) :
    Upholds P K L (resolve registry span module symbol >>= k) := by
  obtain ⟨n, hn, hresolve⟩ | ⟨cause, -, hresolve⟩ := resolve_cases registry span module symbol
  · rw [hresolve, pure_bind]
    exact hk n (hP n hn)
  · rw [hresolve]
    exact (looks_fail span cause).upholds h

/-- A name leads to a function that it was bound to. -/
theorem callee_bind {registry : Registry σ} {span : Option Span} {name : String}
    {k : Native σ → Eval σ Value} (h : Kept P K L) (hk : ∀ n, P n → Upholds P K L (k n)) :
    Upholds P K L (callee registry (.name span name) >>= k) := by
  intro m hm
  have hcallee := callee_name_apply registry span name m
  rcases hlookup : m.env.lookup name with _ | (v | n)
  · rw [hlookup] at hcallee
    rw [bind_error hcallee]
    exact h.weaken hm.2
  · rw [hlookup] at hcallee
    rw [bind_error hcallee]
    exact h.weaken hm.2
  · rw [hlookup] at hcallee
    rw [bind_ok hcallee]
    exact hk n (hm.1.lookup hlookup) m hm

end Upholds

/-- An evaluation keeps what the functions on its paths keep. -/
theorem correspondence_upholds {s : Setting σ} (named : String × String → Prop) (h : Kept P K L)
    (hP : ∀ module symbol, named (module, symbol) →
      ∀ n, s.registry.find? module symbol = some n → P n) :
    Correspondence s s { named } Grading.trivial (fun n n' => n = n' ∧ P n)
      (fun _ _ x _ => Upholds P K L x) where
  pure a := (looks_pure a).upholds h
  decided _ _ v := (looks_pure v).upholds h
  fail _ span cause _ := (looks_fail span cause).upholds h
  refuse _ _ _ m := (looks_refuse m).upholds h
  misplaced _ _ span m := ((looks_refuse m).upholds h).nested h s.limits span
  readName span name := (looks_readName span name).upholds h
  bind hx hf := hx.bind hf
  nested hx span := hx.nested h s.limits span
  inScope hx := hx.inScope
  bindValue name _ := upholds_bindName nofun name
  bindNative name {_ _} hn := upholds_bindName (fun _ heq => Binding.native.inj heq ▸ hn.2) name
  resolve {_ _ _} _ {module symbol} hnamed hk :=
    Upholds.resolve_bind h (hP module symbol hnamed) fun n hn => hk n n ⟨rfl, hn⟩
  lookUp _ _ hk := Upholds.callee_bind h fun n hn => hk n n ⟨rfl, hn⟩
  invoke call args {_ _} hn := upholds_invoke h hn.2 call args

end Eval

namespace Interpreter

variable {σ : Type}

open Eval

/-- A run keeps what the functions on the paths of the program keep. -/
theorem runProgram_upholds {P : Native σ → Prop}
    {K L : σ → List (Node × Native σ × List Value) → Prop} (h : Kept P K L) (i : Interpreter σ)
    (p : Program) (source : Option String) (natives : σ) (hK : K natives [])
    (hP : ∀ module symbol, (module, symbol) ∈ p.node.paths →
      ∀ n, i.registry.find? module symbol = some n → P n) :
    let o := i.runProgram p source natives
    L o.natives (performed o.trace) ∧ ∀ v, o.result = .ok v → K o.natives (performed o.trace) := by
  intro o
  have hupholds := (correspondence_upholds (s := i.setting) (· ∈ p.node.paths) h hP).executeAll
    p.statements .unit fun e he =>
      ⟨Node.Names.child (n := p.node) (fun _ => id) he, False.elim, False.elim⟩
  have hrun := hupholds (start source {} natives [.started p.statements.length])
    ⟨Environment.holds_empty, hK⟩
  unfold o runProgram
  cases hr : executeAll i.setting .unit p.statements
      (start source {} natives [.started p.statements.length]) with
  | error stop m =>
    rw [hr] at hrun
    exact ⟨hrun, fun _ hv => by cases hv⟩
  | ok v m =>
    rw [hr] at hrun
    have hfinished : K m.natives (performed (m.record (.finished v)).trace) := by
      rw [performed_record m rfl]
      exact hrun.2
    exact ⟨h.weaken hfinished, fun _ _ => hfinished⟩

/-- Whatever a run invokes is what the registry has for a path of the program. -/
theorem exists_path {i : Interpreter σ} {p : Program} {source : Option String} {natives : σ}
    {call : Node} {n : Native σ} {args : List Value}
    (h : (call, n, args) ∈ performed (i.runProgram p source natives).trace) :
    ∃ path ∈ p.node.paths, i.registry.find? path.1 path.2 = some n := by
  have hkept : Kept (fun n => ∃ path ∈ p.node.paths, i.registry.find? path.1 path.2 = some n)
      (fun _ calls => ∀ c ∈ calls,
        ∃ path ∈ p.node.paths, i.registry.find? path.1 path.2 = some c.2.1) _ :=
    .always fun hn hcalls call args =>
      List.forall_mem_append.2 ⟨hcalls, List.forall_mem_singleton.2 hn⟩
  have hrun := (runProgram_upholds hkept i p source natives (List.forall_mem_nil _)
    fun module symbol hpath n hn => ⟨_, hpath, hn⟩).1
  exact hrun _ h

/-- All changes of the state of the native functions are by the calls of the trace. -/
theorem runProgram_replay (i : Interpreter σ) (p : Program) (source : Option String) (natives : σ) :
    (i.runProgram p source natives).natives =
      replay natives (i.runProgram p source natives).trace := by
  obtain ⟨r, ⟨events, htrace, hnatives, -⟩, hotrace, honatives, -⟩ := exists_took i p source natives
  rw [hotrace, htrace, honatives]
  exact hnatives

/-- A run leaves the state of the native functions as it is, if those on the paths of the program do. -/
theorem runProgram_natives (i : Interpreter σ) (p : Program) (source : Option String) (natives : σ)
    (hP : ∀ module symbol, (module, symbol) ∈ p.node.paths →
      ∀ n, i.registry.find? module symbol = some n → ∀ args s, (n.run args s).2 = s) :
    (i.runProgram p source natives).natives = natives := by
  have hkept : Kept (fun n => ∀ args s, (n.run args s).2 = s) (fun s _ => s = natives)
      (fun s _ => s = natives) :=
    .always fun hn hs call args => (hn args _).trans hs
  exact (runProgram_upholds hkept i p source natives rfl hP).1

end Interpreter

/-! ## Programs that only read signals -/

/-- The request of a function that is none of those that change signals. -/
theorem Signal.serve_snd {symbol : String} {args : List Value} {r : SignalTable.Request}
    (hr : request? symbol args = some r) (hsymbol : symbol ∉ ["register", "emit", "reset"])
    (t : SignalTable) : (SignalTable.serve r t).2 = t := by
  rcases request?_cases hr with ⟨name, -, ⟨rfl, -⟩ | ⟨rfl, -⟩ | ⟨-, rfl⟩ | ⟨rfl, -⟩⟩ | ⟨-, -, rfl⟩
  · exact absurd (by decide) hsymbol
  · exact absurd (by decide) hsymbol
  · exact t.count_snd name
  · exact absurd (by decide) hsymbol
  · exact t.tracked_snd

namespace Standard

variable {σ : Type}

/-- A standard function leaves the state as it is, unless it is one of those that change signals. -/
theorem run_snd {host : Host} {view : View σ SignalTable} {names : List String}
    {module symbol : String} {n : Native σ} (hview : view.Lawful)
    (hn : (chosen host view names).find? module symbol = some n)
    (hsymbol : module = Signal.moduleName → symbol ∉ ["register", "emit", "reset"])
    (args : List Value) (s : σ) : (n.run args s).2 = s := by
  obtain ⟨-, hget⟩ | ⟨rfl, hget⟩ := find?_chosen hn
  · exact System.run_snd hget args s
  · have hmakes := Signal.makes_of_get? hget
    cases hr : Signal.request? symbol args with
    | none =>
      obtain ⟨cause, -, hrun⟩ := hmakes.run_of_refused hr
      rw [hrun]
    | some r =>
      rw [hmakes.run_of_request hr, Signal.ask_snd, Signal.serve_snd hr (hsymbol rfl)]
      exact hview.set_get s

end Standard

namespace Interpreter

variable {σ : Type}

open Eval

/-- Every native function that a run invokes is the one that the registry has for a path in the program,
written as the callee of a call or as the target of a `use`, and nothing else changes the state of the
native functions. So a program over the standard modules that names none of the functions that change
signals leaves the table as it is, and a second run of it ends as the first one. -/
theorem runProgram_confined (i : Interpreter σ) (p : Program) (source : Option String)
    (natives : σ) :
    let o := i.runProgram p source natives
    o.natives = replay natives o.trace ∧
    (∀ call n args, (call, n, args) ∈ performed o.trace →
      ∃ path ∈ p.node.paths, i.registry.find? path.1 path.2 = some n) ∧
    ∀ (host : Host) (view : View σ SignalTable) (names : List String), view.Lawful →
      i.registry = Standard.chosen host view names →
      (∀ symbol ∈ ["register", "emit", "reset"], (Signal.moduleName, symbol) ∉ p.node.paths) →
      view.get o.natives = view.get natives ∧
      (o.interpreter.runProgram p source o.natives).value p.span = o.value p.span := by
  intro o
  refine ⟨runProgram_replay i p source natives, fun call n args => exists_path,
    fun host view names hview hregistry hwriters => ?_⟩
  have hsame : o.natives = natives := by
    refine runProgram_natives i p source natives fun module symbol hpath n hn => ?_
    rw [hregistry] at hn
    refine Standard.run_snd hview hn ?_
    rintro rfl hwriter
    exact hwriters symbol hwriter hpath
  have hagain : o.interpreter.runProgram p source o.natives = i.runProgram p source o.natives :=
    perform_of_alike (alike_perform i natives (.program p source)) o.natives (.program p source)
  refine ⟨by rw [hsame], ?_⟩
  rw [hagain, hsame]

/-- A program that reads a counter through a name, in a block where the name is bound anew. -/
theorem runProgram_confined_reader :
    let host : Host := {}
    let i : Interpreter SignalTable := ⟨Standard.registry host (.whole _), ⟨9, 1000⟩, 0, []⟩
    let p : Program := ⟨none, [.use none "signal" "count" (some "f"),
      .block none [.use none "os" "pid" (some "f"), .expression none (.call none (.name none "f") [])],
      .expression none (.call none (.name none "f") [.literal none (.str "a")])]⟩
    let t : SignalTable := ⟨[("a", 2)], false⟩
    let o := i.runProgram p none t
    p.node.paths = [("signal", "count"), ("os", "pid")] ∧
      (∀ symbol ∈ ["register", "emit", "reset"], (Signal.moduleName, symbol) ∉ p.node.paths) ∧
      (performed o.trace).length = 2 ∧
      (∀ call n args, (call, n, args) ∈ performed o.trace →
        ∃ path ∈ p.node.paths, i.registry.find? path.1 path.2 = some n) ∧
      o.natives = t ∧ o.result = .ok (.int 2) ∧
      (o.interpreter.runProgram p none o.natives).value none = o.value none := by
  intro host i p t o
  have hpaths : p.node.paths = [("signal", "count"), ("os", "pid")] := rfl
  have hwriters : ∀ symbol ∈ ["register", "emit", "reset"],
      (Signal.moduleName, symbol) ∉ p.node.paths := by
    rw [hpaths]
    decide
  obtain ⟨-, hinvoked, hstandard⟩ := runProgram_confined i p none t
  obtain ⟨htable, hagain⟩ := hstandard host (.whole _) Standard.names (View.lawful_whole _) rfl hwriters
  exact ⟨hpaths, hwriters, rfl, hinvoked, htable, rfl, hagain⟩

end Interpreter

end Scriptlet
