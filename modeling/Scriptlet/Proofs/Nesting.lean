import Scriptlet.Proofs.CallOrder
import Scriptlet.Proofs.RaisedLimits
import Scriptlet.Proofs.Stages

/-!
# The nesting of a tree

How many levels a run opens at once can be read off the tree: each expression and each block is one level
above the deepest of its parts, and a chain of operators is as deep as one of them.

* `Node.depth`: the levels of a tree; `Node.depth_binary` gives the depth of a chain by its operands.
* `Eval.Measured limits t n x`: `x` opens no more than `n` levels; if `t` holds and `x` ends in a value,
  it had room for `n` levels.
* `Interpreter.runProgram_depth`: a run stops for its depth exactly if the limit is below the depth of the
  program.
-/

namespace Scriptlet

/-! ## Depth -/

namespace Node

mutual

/-- The levels of a tree, one above the deepest of its parts. A binary operation that is `chained` shares
the level of the operation whose left operand it is. -/
def levels (chained : Bool) : Node → Nat
  | .literal _ _ | .name _ _ | .path _ _ _ | .blank _ _ => 1
  | .unary _ _ a => a.levels false + 1
  | .binary _ a _ b => max (a.levels true) (b.levels false) + if chained then 0 else 1
  | .index _ a b => max (a.levels false) (b.levels false) + 1
  | .tuple _ es | .call _ _ es | .block _ es => levelsAll es + 1
  | .binding _ _ e | .expression _ e => e.levels false
  | .use _ _ _ _ => 0
  | .program _ es => levelsAll es

/-- The levels of the deepest tree. -/
def levelsAll : List Node → Nat
  | [] => 0
  | e :: es => max (e.levels false) (levelsAll es)

end

/-- The depth of a tree that stands on its own. -/
def depth (n : Node) : Nat := n.levels false

theorem levelsAll_append (es fs : List Node) :
    levelsAll (es ++ fs) = max (levelsAll es) (levelsAll fs) := by
  induction es with
  | nil => simp [levelsAll]
  | cons e es ih => simp only [List.cons_append, levelsAll, ih, Nat.max_assoc]

open Eval in
theorem levels_chained (e : Node) :
    e.levels true = max (chainStart e).depth (levelsAll ((chainLinks e).map (·.right))) := by
  induction e using chainStart.induct with
  | case1 span a op b ih =>
    rw [levels, ih, chainStart, chainLinks, List.map_append, levelsAll_append]
    simp [levelsAll, Nat.max_assoc]
  | case2 e hne =>
    rw [chainStart_of_not_binary hne, chainLinks_of_not_binary hne, depth]
    cases e with
    | binary span a op b => exact absurd rfl (hne _ _ _ _)
    | _ => simp [levels, levelsAll]

open Eval in
/-- A chain of operators is one level above the deepest of its operands: the first one, and the right one
of each operator. -/
theorem depth_binary (span : Option Span) (a b : Node) (op : String) :
    (binary span a op b).depth =
      max (chainStart a).depth
        (levelsAll ((chainLinks (binary span a op b)).map (·.right))) + 1 := by
  have h := levels_chained (binary span a op b)
  rw [levels, chainStart] at h
  rw [depth, levels, ← h]
  simp

end Node

/-! ## Native functions -/

/-- A native function that does not fail with the given code. -/
def Native.Avoids {σ : Type} (code : String) (n : Native σ) : Prop :=
  ∀ args s f, (n.run args s).1 = .failure f → f.cause.code ≠ code

/-- A registry of such functions. -/
def Registry.Avoids {σ : Type} (code : String) (r : Registry σ) : Prop :=
  ∀ module symbol n, r.find? module symbol = some n → n.Avoids code

/-! ## Stops -/

/-- The code of a run that goes too deep. -/
def Cause.depthCode : String := "E503"

theorem code_ne_of_isOperation {cause : Cause} (h : cause.isOperation = true) :
    cause.code ≠ Cause.depthCode := by
  cases cause with
  | operandMismatch | divisionByZero | indexOutOfRange => simp [Cause.code, Cause.depthCode]
  | _ => cases h

/-- What a stop says of a run that opens `n` levels at once: one of them was too many for the limits, or
the failure is about something else than depth. -/
def Stop.Within (limits : Limits) (n : Nat) : Stop → Prop
  | .tooDeep _ => limits.maxDepth < n
  | .exhausted => limits.stackDepth < n
  | .failure f => f.cause.code ≠ Cause.depthCode
  | .malformed _ | .exception _ => True

theorem Stop.Within.mono {limits : Limits} {k n : Nat} {stop : Stop} (h : stop.Within limits k)
    (hk : k ≤ n) : stop.Within limits n := by
  cases stop with
  | tooDeep span | exhausted => exact Nat.lt_of_lt_of_le h hk
  | failure f | malformed m | exception kind => exact h

namespace Eval

variable {σ α β : Type} {limits : Limits} {t : Prop} {k n : Nat}

/-- `x` opens no more than `n` levels at once. If `t` holds and it ends in a value, there was room for `n`
levels. -/
def Measured (limits : Limits) (t : Prop) (n : Nat) (x : Eval σ α) : Prop :=
  ∀ m, m.env.Holds (Native.Avoids Cause.depthCode) → limits.Allows m.depth →
    match x m with
    | .ok _ m' =>
      m'.env.Holds (Native.Avoids Cause.depthCode) ∧ m'.depth = m.depth ∧
        (t → limits.Allows (m.depth + n))
    | .error stop _ => stop.Within limits (m.depth + n)

theorem measured_pure (a : α) : Measured limits t 0 (pure a : Eval σ α) :=
  fun _ hm hroom => ⟨hm, rfl, fun _ => hroom⟩

theorem measured_fail (span : Option Span) {cause : Cause} (h : cause.code ≠ Cause.depthCode) :
    Measured limits t n (fail span cause : Eval σ α) :=
  fun _ _ _ => h

namespace Measured

/-- Two computations in a row open as many levels as the deeper of them. -/
theorem bind {x : Eval σ α} {f : α → Eval σ β} (h : Measured limits t n x)
    (hf : ∀ a, Measured limits t k (f a)) : Measured limits t (max n k) (x >>= f) := by
  intro m hm hroom
  have hx := h m hm hroom
  cases hr : x m with
  | error stop m' =>
    rw [hr] at hx
    rw [bind_error hr]
    exact hx.mono (by omega)
  | ok a m' =>
    rw [hr] at hx
    obtain ⟨hm', hdepth, ht⟩ := hx
    have hfa := hf a m' hm' (by rwa [hdepth])
    rw [bind_ok hr]
    rw [hdepth] at hfa
    cases hr' : f a m' with
    | error stop m'' =>
      rw [hr'] at hfa
      exact hfa.mono (by omega)
    | ok b m'' =>
      rw [hr'] at hfa
      obtain ⟨hm'', hdepth', ht'⟩ := hfa
      refine ⟨hm'', hdepth', fun h => ?_⟩
      -- the deeper of the two is one of the two
      rcases Nat.le_total n k with hle | hle
      · rw [Nat.max_eq_right hle]
        exact ht' h
      · rw [Nat.max_eq_left hle]
        exact ht h

/-- A bound may be wider where nothing is said about room. -/
theorem widen {x : Eval σ α} (h : Measured limits t k x) (ht : ¬ t) (hk : k ≤ n) :
    Measured limits t n x := by
  intro m hm hroom
  have hx := h m hm hroom
  cases hr : x m with
  | error stop m' =>
    rw [hr] at hx
    exact hx.mono (by omega)
  | ok a m' =>
    rw [hr] at hx
    exact ⟨hx.1, hx.2.1, fun h => absurd h ht⟩

theorem nested {x : Eval σ α} (h : Measured limits t n x) (span : Option Span) :
    Measured limits t (n + 1) (nested limits span x) := by
  intro m hm hroom
  unfold Eval.nested
  split_ifs with hmax hstack
  · change limits.maxDepth < m.depth + (n + 1)
    omega
  · change limits.stackDepth < m.depth + (n + 1)
    omega
  · have hdown : limits.Allows (m.depth + 1) := ⟨Nat.not_lt.1 hmax, Nat.not_lt.1 hstack⟩
    have hx := h m.descend hm hdown
    have hsum : m.descend.depth + n = m.depth + (n + 1) := by
      rw [Machine.descend_depth]
      omega
    rw [hsum] at hx
    unfold andThen
    cases hr : x m.descend with
    | error stop m' =>
      rw [hr] at hx
      exact hx
    | ok a m' =>
      rw [hr] at hx
      obtain ⟨hm', hdepth, ht⟩ := hx
      refine ⟨hm', ?_, ht⟩
      rw [Machine.ascend_eq, hdepth, Machine.descend_depth]
      rfl

/-- Scopes do not count as levels. -/
theorem inScope {x : Eval σ α} (h : Measured limits t n x) : Measured limits t n (inScope x) := by
  intro m hm hroom
  have hx := h m.enterScope hm.push hroom
  unfold Eval.inScope andThen
  cases hr : x m.enterScope with
  | error stop m' =>
    rw [hr] at hx
    exact hx
  | ok a m' =>
    rw [hr] at hx
    exact ⟨hx.1.pop, hx.2⟩

/-- A path is resolved without a level. -/
theorem resolve_bind {registry : Registry σ} (hregistry : registry.Avoids Cause.depthCode)
    {k : Native σ → Eval σ Value} (span : Option Span) (module symbol : String)
    (hk : ∀ f, f.Avoids Cause.depthCode → Measured limits t n (k f)) :
    Measured limits t n (resolve registry span module symbol >>= k) := by
  obtain ⟨f, hf, hresolve⟩ | ⟨cause, hmissing, hresolve⟩ :=
    resolve_cases registry span module symbol
  · rw [hresolve, pure_bind]
    exact hk f (hregistry module symbol f hf)
  · rw [hresolve]
    refine measured_fail span ?_
    cases hmissing <;> simp [Cause.code, Cause.depthCode]

/-- A name is looked up without a level. -/
theorem callee_bind {registry : Registry σ} {k : Native σ → Eval σ Value} (span : Option Span)
    (name : String) (hk : ∀ f, f.Avoids Cause.depthCode → Measured limits t n (k f)) :
    Measured limits t n (callee registry (.name span name) >>= k) := by
  intro m hm hroom
  have hcallee := callee_name_apply registry span name m
  rcases hlookup : m.env.lookup name with _ | (v | f)
  · rw [hlookup] at hcallee
    rw [bind_error hcallee]
    simp [Stop.Within, Failure.atSpan, Cause.code, Cause.depthCode]
  · rw [hlookup] at hcallee
    rw [bind_error hcallee]
    simp [Stop.Within, Failure.atSpan, Cause.code, Cause.depthCode]
  · rw [hlookup] at hcallee
    rw [bind_ok hcallee]
    exact hk f (hm.lookup hlookup) m hm hroom

end Measured

/-! ## Steps without levels -/

theorem measured_bindName {b : Binding σ} (hb : ∀ n, b = .native n → n.Avoids Cause.depthCode)
    (name : String) : Measured limits t 0 (bindName name b) :=
  fun _ hm hroom => ⟨hm.bind hb name, rfl, fun _ => hroom⟩

theorem measured_readName (span : Option Span) (name : String) :
    Measured limits t 0 (readName span name : Eval σ Value) := by
  intro m hm hroom
  rw [readName_apply]
  rcases m.env.lookup name with _ | (v | n)
  · simp [Stop.Within, Failure.atSpan, Cause.code, Cause.depthCode]
  · exact ⟨hm, rfl, fun _ => hroom⟩
  · simp [Stop.Within, Failure.atSpan, Cause.code, Cause.depthCode]

theorem measured_invoke (call : Node) {n : Native σ} (hn : n.Avoids Cause.depthCode)
    (args : List Value) : Measured limits t 0 (invoke call n args) := by
  intro m hm hroom
  rw [invoke_apply]
  cases hrun : (n.run args m.natives).1 with
  | value v => exact ⟨hm, rfl, fun _ => hroom⟩
  | failure f => exact hn args m.natives f hrun
  | foreign typeName | escaped kind text =>
    simp [Native.Answer.settle, Stop.ofTrouble, Stop.Within, Failure.ofCause, Cause.code,
      Cause.depthCode]
  | unreadable kind => trivial

/-! ## Evaluation -/

/-- Levels add up along a tree: those of a part are one below. -/
def Grading.levels : Grading Nat :=
  ⟨0, max, (· + 1), fun _ => 0, fun _ => 0, Nat.zero_max, Nat.max_zero⟩

section

variable {named : String → Prop}

theorem Grading.callee_levels {f : Node} (h : f.IsCallee named) : Grading.levels.callee f = 0 := by
  cases h <;> rfl

theorem Grading.expressions_levels {es : List Node}
    (h : ∀ e ∈ es, Grading.levels.expression false e = e.levels false) :
    Grading.levels.expressions es = Node.levelsAll es := by
  induction es with
  | nil => rfl
  | cons e es ih =>
    obtain ⟨he, hes⟩ := List.forall_mem_cons.1 h
    rw [expressions, Node.levelsAll, he, ih hes]
    rfl

theorem Grading.expression_levels {e : Node} (h : e.IsExpression named) :
    ∀ chained, Grading.levels.expression chained e = e.levels chained := by
  induction h with
  | int span | str span | bool span | name span =>
    intro chained
    rw [expression, Node.levels]
    rfl
  | unary span _ _ ih =>
    intro chained
    rw [expression, Node.levels, ih]
    rfl
  | binary span op _ _ iha ihb =>
    intro chained
    rw [expression, Node.levels, iha, ihb]
    cases chained <;> rfl
  | tuple span _ ih =>
    intro chained
    rw [expression, Node.levels, expressions_levels fun e he => ih e he false]
    rfl
  | index span _ _ iha ihb =>
    intro chained
    rw [expression, Node.levels, iha, ihb]
    rfl
  | call span hf _ ih =>
    intro chained
    rw [expression, Node.levels, callee_levels hf, expressions_levels fun e he => ih e he false]
    change max 0 (max _ 0) + 1 = _
    rw [Nat.max_zero, Nat.zero_max]

theorem Grading.statements_levels {es : List Node}
    (h : ∀ e ∈ es, Grading.levels.statement e = e.depth) :
    Grading.levels.statements es = Node.levelsAll es := by
  induction es with
  | nil => rfl
  | cons e es ih =>
    obtain ⟨he, hes⟩ := List.forall_mem_cons.1 h
    rw [statements, Node.levelsAll, he, ih hes]
    rfl

theorem Grading.statement_levels {e : Node} (h : e.IsStatement named) :
    Grading.levels.statement e = e.depth := by
  induction h with
  | expression span he =>
    rw [statement, Node.depth, Node.levels, expression_levels he]
  | binding span _ he =>
    rw [statement, Node.depth, Node.levels, expression_levels he]
  | block span _ ih =>
    rw [statement, Node.depth, Node.levels, statements_levels ih]
    rfl
  | use span _ _ _ =>
    rw [statement, Node.depth, Node.levels]
    rfl

end

/-- An evaluation opens as many levels as its tree is deep; without logical operations it opens all of
them. -/
theorem correspondence_measured {s : Setting σ} (hs : s.registry.Avoids Cause.depthCode) (t : Prop) :
    Correspondence s s { formed := True, plain := t } Grading.levels
      (fun n n' => n = n' ∧ n.Avoids Cause.depthCode)
      (fun n _ x _ => Measured s.limits t n x) where
  pure a := measured_pure a
  decided ht n v := (measured_pure v).widen ht (Nat.zero_le n)
  fail _ span _ h := measured_fail span (code_ne_of_isOperation (h trivial))
  refuse h := absurd trivial h
  misplaced h := absurd trivial h
  readName span name := measured_readName span name
  bind hx hf := hx.bind hf
  nested hx span := hx.nested span
  resolve {_ _ _} span {module symbol} _ hk :=
    .resolve_bind hs span module symbol fun n hn => hk n n ⟨rfl, hn⟩
  lookUp span name hk := .callee_bind span name fun n hn => hk n n ⟨rfl, hn⟩
  invoke call args {_ _} hn := measured_invoke call hn.2 args
  inScope hx := hx.inScope
  bindValue name _ := measured_bindName (fun _ h => by cases h) name
  bindNative name {_ _} hn := measured_bindName (fun _ h => Binding.native.inj h ▸ hn.2) name

end Eval

/-! ## Runs -/

/-- The code of the failure that a run over a tree at `span` ended in, if it did. -/
def Outcome.code? {σ : Type} (o : Outcome σ) (span : Option Span) : Option String :=
  match o.value span with
  | .error (.failure f) => some f.cause.code
  | .error (.malformed _) | .error (.exception _) | .ok _ => none

section

variable {σ : Type} {o : Outcome σ}

theorem Outcome.code?_of_ok {v : Value} (h : o.result = .ok v) (span : Option Span) :
    o.code? span = none := by
  unfold code? value
  rw [h]

theorem Outcome.code?_of_limit {stop : Stop} (h : o.result = .error stop)
    (hstop : stop.isLimit = true) (span : Option Span) : o.code? span = some Cause.depthCode := by
  unfold code? value
  rw [h]
  cases stop with
  | tooDeep place | exhausted => rfl
  | failure f | malformed m | exception kind => cases hstop

/-- Within limits, a stop has no failure for its depth. -/
theorem Outcome.code?_of_within {limits : Limits} {n : Nat} {stop : Stop}
    (h : o.result = .error stop) (hstop : stop.Within limits n) (hlimit : stop.isLimit = false)
    (span : Option Span) : o.code? span ≠ some Cause.depthCode := by
  unfold code? value
  rw [h]
  cases stop with
  | failure f => exact fun hcode => hstop (Option.some.inj hcode)
  | malformed m | exception kind => exact nofun
  | tooDeep place | exhausted => cases hlimit

end

namespace Interpreter

variable {σ : Type}

/-- A program that was read opens as many levels as it is deep. -/
theorem runProgram_measured {i : Interpreter σ} (hregistry : i.registry.Avoids Cause.depthCode)
    {limit : Nat} {tokens : List Token} {p : Program} (hp : Program.read limit tokens = .ok p)
    (source : Option String) (natives : σ) :
    (∀ stop, (i.runProgram p source natives).result = .error stop →
      stop.Within i.limits p.node.depth) ∧
    ∀ v, (i.runProgram p source natives).result = .ok v → p.node.Plain →
      i.limits.Allows p.node.depth := by
  have hstatements : ∀ e ∈ p.statements, e.IsStatement fun _ => True :=
    Program.isStatement_of_read (fun _ _ _ _ => trivial) hp
  have hall := (Eval.correspondence_measured (s := i.setting) hregistry p.node.Plain).executeAll
    p.statements .unit
    fun e he => ⟨fun _ _ => trivial, fun _ => hstatements e he, fun hplain => hplain.child he⟩
  rw [Eval.Grading.statements_levels fun e he => Eval.Grading.statement_levels (hstatements e he)]
    at hall
  have hrun := hall (start source {} natives [.started p.statements.length])
    Environment.holds_empty ⟨Nat.zero_le _, Nat.zero_le _⟩
  have hdepth : (start source ({} : Environment σ) natives
      [.started p.statements.length]).depth + Node.levelsAll p.statements = p.node.depth := by
    rw [Program.node, Node.depth, Node.levels]
    exact Nat.zero_add _
  rw [hdepth] at hrun
  unfold runProgram
  cases hr : Eval.executeAll i.setting .unit p.statements
      (start source {} natives [.started p.statements.length]) with
  | ok v m =>
    rw [hr] at hrun
    exact ⟨nofun, fun _ _ hplain => hrun.2.2 hplain⟩
  | error stop m =>
    rw [hr] at hrun
    refine ⟨?_, nofun⟩
    rintro _ ⟨⟩
    exact hrun

section

variable {i : Interpreter σ} {limit : Nat} {tokens : List Token} {p : Program}
  {source : Option String} {natives : σ} {m m' : Nat} {v : Value}

/-- A run to a value is the same under each limit that is not below the depth of the program. -/
theorem runProgram_agrees (hregistry : i.registry.Avoids Cause.depthCode)
    (hp : Program.read limit tokens = .ok p) (hplain : p.node.Plain)
    (hv : ((i.withMaxDepth m).runProgram p source natives).result = .ok v)
    (hm' : p.node.depth ≤ m') :
    ((i.withMaxDepth m').runProgram p source natives).Agrees
      ((i.withMaxDepth m).runProgram p source natives) := by
  rcases Nat.le_total m m' with hle | hle
  · apply runProgram_of_le i p source natives hle
    intro stop hstop
    rw [hv] at hstop
    cases hstop
  · apply Outcome.Agrees.symm
    apply runProgram_of_le i p source natives hle
    intro stop hstop
    -- the run to a value shows that the host has room for the whole program
    have hroom := (runProgram_measured (i := i.withMaxDepth m) hregistry hp _ _).2 v hv hplain
    have hhost : p.node.depth ≤ i.limits.stackDepth := hroom.2
    have hwithin := (runProgram_measured (i := i.withMaxDepth m') hregistry hp _ _).1 stop hstop
    cases stop with
    | tooDeep place => exact absurd hm' (Nat.not_le.2 hwithin)
    | exhausted => exact absurd hhost (Nat.not_le.2 hwithin)
    | failure f | malformed n | exception kind => rfl

/-- Under a limit that is below the depth of the program, such a run ends at a limit. -/
theorem runProgram_limited (hregistry : i.registry.Avoids Cause.depthCode)
    (hp : Program.read limit tokens = .ok p) (hplain : p.node.Plain)
    (hv : ((i.withMaxDepth m).runProgram p source natives).result = .ok v)
    (hm' : m' < p.node.depth) :
    ∃ stop, ((i.withMaxDepth m').runProgram p source natives).result = .error stop ∧
      stop.isLimit = true := by
  have hfits := (runProgram_measured (i := i.withMaxDepth m) hregistry hp _ _).2 v hv hplain
  have hle : m' ≤ m := Nat.le_trans (Nat.le_of_lt hm') hfits.1
  -- any other end would be the end under the higher limit, too
  by_contra hother
  have hagrees := runProgram_of_le i p source natives hle fun stop hstop => by
    by_contra hlimit
    exact hother ⟨stop, hstop, Bool.of_not_eq_false hlimit⟩
  have hv' : ((i.withMaxDepth m').runProgram p source natives).result = .ok v := by
    rw [← hagrees.result, hv]
  have hfits' := (runProgram_measured (i := i.withMaxDepth m') hregistry hp _ _).2 v hv' hplain
  exact absurd hfits'.1 (Nat.not_le.2 hm')

end

/-- The depth of a chain of operators is one above the deepest of its operands. With native functions that do
not fail for depth themselves, a program within the limit does not end in such a failure, unless the host
gives up. And a program without logical operations that runs to a value
under some limit does so under each limit that is not below its depth, in the same way, while under all
others it ends in that failure. -/
theorem runProgram_depth (i : Interpreter σ) (hregistry : i.registry.Avoids Cause.depthCode)
    (limit : Nat) (tokens : List Token) (p : Program) (hp : Program.read limit tokens = .ok p)
    (source : Option String) (natives : σ) :
    let run (m : Nat) := (i.withMaxDepth m).runProgram p source natives
    (∀ span a op b, (Node.binary span a op b).depth = max (Eval.chainStart a).depth
      (Node.levelsAll ((Eval.chainLinks (.binary span a op b)).map (·.right))) + 1) ∧
    (∀ m, p.node.depth ≤ m → (run m).result ≠ .error .exhausted →
      (run m).code? p.span ≠ some Cause.depthCode) ∧
    (p.node.Plain → ∀ m v, (run m).result = .ok v → ∀ m',
      ((run m').code? p.span = some Cause.depthCode ↔ m' < p.node.depth) ∧
      (p.node.depth ≤ m' → (run m').Agrees (run m))) := by
  intro run
  refine ⟨fun span a op b => Node.depth_binary span a b op, fun m hm hhost hcode => ?_,
    fun hplain m v hv m' => ⟨⟨fun hcode => ?_, fun hlt => ?_⟩, ?_⟩⟩
  · cases hresult : (run m).result with
    | ok v =>
      rw [Outcome.code?_of_ok hresult] at hcode
      cases hcode
    | error stop =>
      have hstop := (runProgram_measured (i := i.withMaxDepth m) hregistry hp _ _).1 stop hresult
      refine Outcome.code?_of_within hresult hstop ?_ p.span hcode
      cases stop with
      | tooDeep place => exact absurd hm (Nat.not_le.2 hstop)
      | exhausted => exact absurd hresult hhost
      | failure f | malformed n | exception kind => rfl
  · by_contra hle
    have hsame := runProgram_agrees hregistry hp hplain hv (Nat.not_lt.1 hle)
    have hv' : (run m').result = .ok v := hsame.result.trans hv
    rw [Outcome.code?_of_ok hv'] at hcode
    cases hcode
  · obtain ⟨stop, hresult, hlimit⟩ := runProgram_limited hregistry hp hplain hv hlt
    exact Outcome.code?_of_limit hresult hlimit p.span
  · intro hle
    exact runProgram_agrees hregistry hp hplain hv hle

theorem counting_avoids (limits : Limits) (code : String) :
    (Eval.counting limits).registry.Avoids code := by
  intro module symbol n hn args state f hf
  rw [Registry.eq_of_offers ⟨module, symbol, hn⟩] at hf
  cases hf

/-- A block around a chain whose first operand is a call: four levels, and not five for the second operator
of the chain. -/
theorem runProgram_depth_chainInBlock :
    let i : Interpreter Nat := ⟨(Eval.counting ⟨9, 1000⟩).registry, ⟨9, 1000⟩, 0, []⟩
    let tokens := Program.tokensOf [.symbol .openBrace, .ident "counter", .symbol .doubleColon,
      .ident "next", .symbol .openParen, .int 1, .symbol .closeParen, .symbol .minus, .int 2,
      .symbol .minus, .int 3, .symbol .closeBrace]
    let s : Option Span := some default
    let call : Node := .call s (.path s "counter" "next") [.literal s (.int 1)]
    let chain : Node := .binary s (.binary s call "-" (.literal s (.int 2))) "-" (.literal s (.int 3))
    let p : Program := ⟨s, [.block s [.expression s chain]]⟩
    let run (m : Nat) := (i.withMaxDepth m).runProgram p none 7
    i.registry.Avoids Cause.depthCode ∧ Program.read 9 tokens = .ok p ∧ p.node.Plain ∧
      p.node.depth = 4 ∧ (run 4).result = .ok (.int 2) ∧
      (run 4).code? p.span ≠ some Cause.depthCode ∧ (run 3).code? p.span = some Cause.depthCode ∧
      (run 20).Agrees (run 4) := by
  intro i tokens s call chain p run
  have havoids : i.registry.Avoids Cause.depthCode := counting_avoids ⟨9, 1000⟩ _
  have hp : Program.read 9 tokens = .ok p := rfl
  have hplain : p.node.Plain := by
    unfold Node.Plain
    decide
  obtain ⟨-, hwithin, hexact⟩ := runProgram_depth i havoids 9 tokens p hp none 7
  have hrun := hexact hplain 4 (.int 2) rfl
  exact ⟨havoids, hp, hplain, rfl, rfl, hwithin 4 (by decide) nofun, (hrun 3).1.2 (by decide),
    (hrun 20).2 (by decide)⟩

end Interpreter

end Scriptlet
