import Scriptlet.Eval.Interpreter
import Scriptlet.Proofs.Correspondence

/-!
# The order of native calls

The calls of a program are invoked in the order of the text, a call after the calls in its arguments.
Errors and limits cut a run off, and a logical operator may leave out its right operand; nothing else
keeps a call from its turn, and none gets a second one.

* `Eval.performed`: the calls of native functions that a trace tells of, with their arguments;
  `Eval.invocations`: the calls alone.
* `Eval.Invokes t cs x`: the calls that `x` invokes are taken from `cs` in order; if `t` holds, they are
  the first ones of `cs`, and all of them if `x` does not stop.
* `Interpreter.runProgram_invocations`: what this says of a run.
-/

namespace Scriptlet

namespace Eval

variable {σ α β : Type}

open Result
open scoped List

/-! ## The calls of a run -/

/-- The call that an event tells of, with the native function and the arguments. -/
def performed? : Event σ → Option (Node × Native σ × List Value)
  | .invoked call n args => some (call, n, args)
  | _ => none

/-- The calls of native functions that a trace tells of, in order. -/
def performed (trace : List (Event σ)) : List (Node × Native σ × List Value) :=
  trace.filterMap performed?

/-- The calls that were invoked, in order. -/
def invocations (trace : List (Event σ)) : List Node := (performed trace).map (·.1)

/-- What an event does to the state of the native functions. -/
def rerun (natives : σ) : Event σ → σ
  | .invoked _ n args => (n.run args natives).2
  | _ => natives

/-- The state of the native functions after the calls of a trace. -/
def replay (natives : σ) (trace : List (Event σ)) : σ := trace.foldl rerun natives

theorem performed_append (trace events : List (Event σ)) :
    performed (trace ++ events) = performed trace ++ performed events :=
  List.filterMap_append

theorem invocations_append (trace events : List (Event σ)) :
    invocations (trace ++ events) = invocations trace ++ invocations events := by
  rw [invocations, performed_append, List.map_append]
  rfl

theorem replay_append (natives : σ) (trace events : List (Event σ)) :
    replay natives (trace ++ events) = replay (replay natives trace) events :=
  List.foldl_append

/-- The trace since `m` tells all that happened to the native functions, and its calls are taken from
`cs` in order. If `t` holds, they are the first ones of `cs`, and all of them unless the computation
stopped. -/
def Took (t : Prop) (cs : List Node) (m : Machine σ) (r : Result σ α) : Prop :=
  ∃ events, (state r).trace = m.trace ++ events ∧ (state r).natives = replay m.natives events ∧
    invocations events <+ cs ∧
    (t → invocations events <+: cs ∧ ∀ a m', r = .ok a m' → invocations events = cs)

/-- The calls that `x` invokes are taken from `cs` in order. -/
def Invokes (t : Prop) (cs : List Node) (x : Eval σ α) : Prop := ∀ m, Took t cs m (x m)

variable {t : Prop} {cs ds : List Node}

/-- What leaves the state as it is invokes nothing. -/
theorem Looks.invokes {x : Eval σ α} (h : Looks x) : Invokes t [] x := by
  intro m
  refine ⟨[], ?_, ?_, List.nil_sublist _, fun _ => ⟨List.nil_prefix, fun _ _ _ => rfl⟩⟩
  · rw [h m, List.append_nil]
  · rw [h m]
    rfl

/-- A computation that stopped may have left out any calls. -/
theorem took_error {m m' : Machine σ} {stop : Stop} (htrace : m'.trace = m.trace)
    (hnatives : m'.natives = m.natives) : Took t cs m (.error stop m' : Result σ α) :=
  ⟨[], htrace.trans (List.append_nil _).symm, hnatives, List.nil_sublist _,
    fun _ => ⟨List.nil_prefix, nofun⟩⟩

theorem invokes_fail (span : Option Span) (cause : Cause) :
    Invokes t cs (fail span cause : Eval σ α) :=
  fun _ => took_error rfl rfl

theorem invokes_refuse (m : Malformed) : Invokes t cs (refuse m : Eval σ α) :=
  fun _ => took_error rfl rfl

/-- Without the condition any calls may be left out. -/
theorem Invokes.widen {x : Eval σ α} (h : Invokes t cs x) (ht : ¬ t) (hcs : cs <+ ds) :
    Invokes t ds x := by
  intro m
  obtain ⟨events, htrace, hnatives, hsub, -⟩ := h m
  exact ⟨events, htrace, hnatives, hsub.trans hcs, fun htotal => absurd htotal ht⟩

theorem Invokes.bind {x : Eval σ α} {f : α → Eval σ β} (h : Invokes t cs x)
    (hf : ∀ a, Invokes t ds (f a)) : Invokes t (cs ++ ds) (x >>= f) := by
  intro m
  obtain ⟨events, htrace, hnatives, hsub, ht⟩ := h m
  cases hx : x m with
  | error stop m' =>
    rw [hx] at htrace hnatives
    rw [bind_error hx]
    refine ⟨events, htrace, hnatives, hsub.trans (List.sublist_append_left _ _),
      fun htotal => ⟨?_, nofun⟩⟩
    exact (ht htotal).1.trans (List.prefix_append _ _)
  | ok a m' =>
    rw [hx] at htrace hnatives
    change m'.trace = _ at htrace
    change m'.natives = _ at hnatives
    rw [bind_ok hx]
    obtain ⟨events', htrace', hnatives', hsub', ht'⟩ := hf a m'
    refine ⟨events ++ events', ?_, ?_, ?_, fun htotal => ?_⟩
    · rw [htrace', htrace, List.append_assoc]
    · rw [hnatives', hnatives, replay_append]
    · rw [invocations_append]
      exact hsub.append hsub'
    · -- The first part went through, so all of `cs` was invoked.
      rw [invocations_append, (ht htotal).2 a m' hx]
      obtain ⟨hbegin, hall⟩ := ht' htotal
      exact ⟨(List.prefix_append_right_inj cs).2 hbegin,
        fun b m'' hok => congrArg (cs ++ ·) (hall b m'' hok)⟩

/-- A change of the state that tells of no call. -/
def Silent (f : Machine σ → Machine σ) : Prop :=
  ∀ m, ∃ events, (f m).trace = m.trace ++ events ∧ (f m).natives = m.natives ∧
    invocations events = [] ∧ ∀ natives, replay natives events = natives

theorem silent_descend : Silent (Machine.descend : Machine σ → Machine σ) :=
  fun _ => ⟨[], (List.append_nil _).symm, rfl, rfl, fun _ => rfl⟩

theorem silent_ascend : Silent (Machine.ascend : Machine σ → Machine σ) :=
  fun _ => ⟨[], (List.append_nil _).symm, rfl, rfl, fun _ => rfl⟩

theorem silent_enterScope : Silent (Machine.enterScope : Machine σ → Machine σ) :=
  fun _ => ⟨[.scopeEntered _], rfl, rfl, rfl, fun _ => rfl⟩

theorem silent_leaveScope : Silent (Machine.leaveScope : Machine σ → Machine σ) :=
  fun _ => ⟨[.scopeLeft _], rfl, rfl, rfl, fun _ => rfl⟩

theorem Took.before {f : Machine σ → Machine σ} {m : Machine σ} {r : Result σ α}
    (h : Took t cs (f m) r) (hf : Silent f) : Took t cs m r := by
  obtain ⟨first, htrace, hnatives, hnone, hreplay⟩ := hf m
  obtain ⟨events, htrace', hnatives', hsub, ht⟩ := h
  have hevents : invocations (first ++ events) = invocations events := by
    rw [invocations_append, hnone, List.nil_append]
  refine ⟨first ++ events, ?_, ?_, hevents ▸ hsub, hevents ▸ ht⟩
  · rw [htrace', htrace, List.append_assoc]
  · rw [hnatives', hnatives, replay_append, hreplay]

theorem Took.after {f : Machine σ → Machine σ} {m : Machine σ} {r : Result σ α}
    (h : Took t cs m r) (hf : Silent f) : Took t cs m (mapState f r) := by
  obtain ⟨events, htrace, hnatives, hsub, ht⟩ := h
  obtain ⟨last, htrace', hnatives', hnone, hreplay⟩ := hf (state r)
  have hevents : invocations (events ++ last) = invocations events := by
    rw [invocations_append, hnone, List.append_nil]
  refine ⟨events ++ last, ?_, ?_, hevents ▸ hsub, fun htotal => ?_⟩
  · rw [state_mapState, htrace', htrace, List.append_assoc]
  · rw [state_mapState, hnatives', hnatives, replay_append, hreplay]
  · rw [hevents]
    refine ⟨(ht htotal).1, fun a m' hok => ?_⟩
    cases r with
    | ok b m₁ => exact (ht htotal).2 b m₁ rfl
    | error stop m₁ => cases hok

theorem Invokes.nested {x : Eval σ α} (h : Invokes t cs x) (limits : Limits) (span : Option Span) :
    Invokes t cs (nested limits span x) := by
  intro m
  obtain ⟨stop, hstop⟩ | hdown := nested_cases limits span x m
  · rw [hstop]
    exact took_error rfl rfl
  · rw [hdown]
    exact ((h m.descend).after silent_ascend).before silent_descend

theorem Invokes.inScope {x : Eval σ α} (h : Invokes t cs x) : Invokes t cs (inScope x) := by
  intro m
  unfold Eval.inScope
  rw [andThen_apply]
  exact ((h m.enterScope).after silent_leaveScope).before silent_enterScope

theorem invokes_bindName (name : String) (b : Binding σ) : Invokes t [] (bindName name b) :=
  fun _ => ⟨[], (List.append_nil _).symm, rfl, List.nil_sublist _,
    fun _ => ⟨List.nil_prefix, fun _ _ _ => rfl⟩⟩

theorem invocations_callEvents (call : Node) (n : Native σ) (args : List Value)
    (answer : Native.Answer) : invocations (Machine.callEvents call n args answer) = [call] := by
  cases answer <;> rfl

theorem replay_callEvents (call : Node) (n : Native σ) (args : List Value) (natives : σ)
    (answer : Native.Answer) :
    replay natives (Machine.callEvents call n args answer) = (n.run args natives).2 := by
  cases answer <;> rfl

theorem invokes_invoke (call : Node) (n : Native σ) (args : List Value) :
    Invokes t [call] (invoke call n args) := by
  intro m
  refine ⟨Machine.callEvents call n args (n.run args m.natives).1, ?_, ?_, ?_⟩
  · rw [state_invoke]
    rfl
  · rw [state_invoke, replay_callEvents]
    rfl
  · rw [invocations_callEvents]
    exact ⟨List.Sublist.refl _, fun _ => ⟨List.prefix_refl _, fun _ _ _ => rfl⟩⟩

/-! ## Evaluation -/

/-- The calls of a tree add up along it. -/
def Grading.calls : Grading (List Node) :=
  ⟨[], (· ++ ·), id, fun call => [call], Node.calls, List.nil_append, List.append_nil⟩

theorem Grading.callee_calls (f : Node) : Grading.calls.callee f = f.calls := by
  cases f <;> rfl

mutual

theorem Grading.expression_calls :
    ∀ (e : Node) (chained : Bool), Grading.calls.expression chained e = e.calls
  | .literal _ _, _ | .name _ _, _ | .path _ _ _, _ => by
    rw [expression]
    rfl
  | .unary _ _ a, _ => by
    rw [expression, Node.calls_of_not_call rfl, expression_calls a]
    exact (List.append_nil _).symm
  | .binary _ a _ b, chained => by
    rw [expression, Node.calls_of_not_call rfl, expression_calls a, expression_calls b]
    have hboth : a.calls ++ b.calls = [a, b].flatMap Node.calls := by
      simp only [List.flatMap_cons, List.flatMap_nil, List.append_nil]
    cases chained <;> exact hboth
  | .index _ a b, _ => by
    rw [expression, Node.calls_of_not_call rfl, expression_calls a, expression_calls b, Node.children]
    simp only [List.flatMap_cons, List.flatMap_nil, List.append_nil]
    rfl
  | .tuple _ es, _ => by
    rw [expression, expressions_calls es, Node.calls_of_not_call rfl]
    rfl
  | .call span f es, _ => by
    rw [expression, callee_calls, expressions_calls es, Node.calls_call]
    rfl
  | .binding _ _ _, _ | .expression _ _, _ | .block _ _, _ | .use _ _ _ _, _ | .program _ _, _
  | .blank _ _, _ => by
    rw [expression]
    rfl

theorem Grading.expressions_calls :
    ∀ es : List Node, Grading.calls.expressions es = es.flatMap Node.calls
  | [] => by
    rw [expressions]
    rfl
  | e :: es => by
    rw [expressions, expression_calls e, expressions_calls es]
    rfl

end

mutual

theorem Grading.statement_calls : ∀ e : Node, Grading.calls.statement e = e.calls
  | .expression _ e | .binding _ _ e => by
    rw [statement, Node.calls_of_not_call rfl, expression_calls]
    exact (List.append_nil _).symm
  | .block _ es => by
    rw [statement, statements_calls es, Node.calls_of_not_call rfl]
    rfl
  | .use _ _ _ _ | .literal _ _ | .name _ _ | .unary _ _ _ | .binary _ _ _ _ | .tuple _ _
  | .index _ _ _ | .path _ _ _ | .call _ _ _ | .program _ _ | .blank _ _ => by
    rw [statement]
    rfl

theorem Grading.statements_calls :
    ∀ es : List Node, Grading.calls.statements es = es.flatMap Node.calls
  | [] => by
    rw [statements]
    rfl
  | e :: es => by
    rw [statements, statement_calls e, statements_calls es]
    rfl

end

/-- An evaluation invokes the calls of its tree. -/
theorem correspondence_invokes (s : Setting σ) (t : Prop) :
    Correspondence s s { plain := t } Grading.calls Eq (fun cs _ x _ => Invokes t cs x) where
  pure a := (looks_pure a).invokes
  decided ht _ v := (looks_pure v).invokes.widen ht (List.nil_sublist _)
  fail _ span cause _ := invokes_fail span cause
  refuse _ _ _ m := invokes_refuse m
  misplaced _ _ span m := (invokes_refuse m).nested s.limits span
  readName span name := (looks_readName span name).invokes
  bind hx hf := hx.bind hf
  nested hx span := hx.nested s.limits span
  resolve span _ _ _ hk := (looks_resolve s.registry span _ _).invokes.bind fun n => hk n n rfl
  lookUp _ _ hk := (looks_callee s.registry _).invokes.bind fun n => hk n n rfl
  invoke call args n _ _ := invokes_invoke call n args
  inScope hx := hx.inScope
  bindValue name _ := invokes_bindName name _
  bindNative name _ _ _ := invokes_bindName name _

/-- A call whose callee does not resolve stops, and its arguments are not evaluated. -/
theorem evaluate_call_of_unresolved {s : Setting σ} {f : Node} {m m' : Machine σ} {stop : Stop}
    (h : callee s.registry f m = .error stop m') (chained : Bool) (span : Option Span)
    (es : List Node) :
    ∃ stop' m'', evaluate s chained (.call span f es) m = .error stop' m'' ∧
      m''.trace = m.trace ∧ m''.natives = m.natives := by
  rw [evaluate]
  obtain ⟨stop', hstop⟩ | hdown := nested_cases s.limits span
    (do
      let n ← callee s.registry f
      let args ← evaluateAll s es
      invoke (.call span f es) n args) m
  · exact ⟨stop', m.descend, hstop, rfl, rfl⟩
  · have hm : m' = m := by
      have hlooks := looks_callee s.registry f m
      rw [h] at hlooks
      exact hlooks
    have hdescend : callee s.registry f m.descend = .error stop m.descend := by
      rw [Machine.descend_eq, (levelFree_callee s.registry f).atDepth_apply, h, hm]
      rfl
    rw [hdown, bind_error hdescend]
    exact ⟨stop, m.descend.ascend, rfl, rfl, rfl⟩

end Eval

namespace Interpreter

variable {σ : Type}

open Eval
open scoped List

/-- The events that frame a run are no calls. -/
theorem exists_took (i : Interpreter σ) (p : Program) (source : Option String) (natives : σ) :
    ∃ r : Result σ Value, Took p.node.Plain p.node.calls (start source {} natives []) r ∧
      (i.runProgram p source natives).trace = (Result.state r).trace ∧
      (i.runProgram p source natives).natives = (Result.state r).natives ∧
      ∀ v, (i.runProgram p source natives).result = .ok v → ∃ m, r = .ok v m := by
  have hcalls : p.node.calls = p.statements.flatMap Node.calls := Node.calls_of_not_call rfl
  have hstarted : Silent fun m : Machine σ => m.record (.started p.statements.length) :=
    fun _ => ⟨[.started _], rfl, rfl, rfl, fun _ => rfl⟩
  have hfinished (v : Value) : Silent fun m : Machine σ => m.record (.finished v) :=
    fun _ => ⟨[.finished v], rfl, rfl, rfl, fun _ => rfl⟩
  have htook := (correspondence_invokes i.setting p.node.Plain).executeAll p.statements .unit
    (fun e he => ⟨fun _ _ => trivial, False.elim, fun h => h.child he⟩)
    (start source {} natives [.started p.statements.length])
  rw [Grading.statements_calls, ← hcalls] at htook
  unfold runProgram
  cases hrun : executeAll i.setting .unit p.statements
      (start source {} natives [.started p.statements.length]) with
  | error stop m =>
    rw [hrun] at htook
    exact ⟨_, Took.before (m := start source {} natives []) htook hstarted, rfl, rfl, nofun⟩
  | ok v m =>
    rw [hrun] at htook
    refine ⟨_, Took.before (m := start source {} natives []) (htook.after (hfinished v)) hstarted,
      rfl, rfl, ?_⟩
    rintro _ ⟨⟩
    exact ⟨_, rfl⟩

/-- A run invokes calls of its program in order, each at most once, and nothing else happens to the
native functions. Without logical operations these are the first calls of the program, and all of them
if the run ends in a value. A call whose callee does not resolve ends the run, and neither it nor a call
in its arguments is invoked. -/
theorem runProgram_invocations (i : Interpreter σ) (p : Program) (source : Option String)
    (natives : σ) :
    let o := i.runProgram p source natives
    o.natives = replay natives o.trace ∧
    invocations o.trace <+ p.node.calls ∧
    (p.node.Plain → invocations o.trace <+: p.node.calls ∧
      ∀ v, o.result = .ok v → invocations o.trace = p.node.calls) ∧
    ∀ (f : Node) (m m' : Machine σ) (stop : Stop), callee i.registry f m = .error stop m' →
      ∀ (chained : Bool) (span : Option Span) (es : List Node),
        ∃ stop' m'', evaluate i.setting chained (.call span f es) m = .error stop' m'' ∧
          m''.trace = m.trace ∧ m''.natives = m.natives := by
  intro o
  obtain ⟨r, ⟨events, htrace, hnatives, hsub, ht⟩, hotrace, honatives, hok⟩ :=
    exists_took i p source natives
  have hevents : o.trace = events := hotrace.trans htrace
  rw [hevents]
  refine ⟨honatives.trans hnatives, hsub, fun hp => ⟨(ht hp).1, fun v hv => ?_⟩,
    fun f m m' stop h => evaluate_call_of_unresolved h⟩
  obtain ⟨m, hm⟩ := hok v hv
  exact (ht hp).2 v m hm

/-- The arguments of a call are calls themselves: these come first, from left to right. -/
theorem runProgram_invocations_nested :
    let i : Interpreter Nat := ⟨[("counter", [("next", counter)])], ⟨9, 1000⟩, 0, []⟩
    let inner (k : Int) : Node := .call none (.path none "counter" "next") [.literal none (.int k)]
    let outer : Node := .call none (.path none "counter" "next") [inner 1, inner 2]
    let p : Program := ⟨none, [.expression none outer]⟩
    p.node.Plain ∧ (i.runProgram p none 0).natives = 3 ∧
      invocations (i.runProgram p none 0).trace = [inner 1, inner 2, outer] := by
  intro i inner outer p
  have hplain : p.node.Plain := by
    unfold Node.Plain
    decide
  obtain ⟨hnatives, -, hall, -⟩ := runProgram_invocations i p none 0
  exact ⟨hplain, hnatives, (hall hplain).2 (.int 2) rfl⟩

end Interpreter

end Scriptlet
