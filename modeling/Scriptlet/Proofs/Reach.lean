import Mathlib.Logic.Relation
import Scriptlet.Proofs.Operations
import Scriptlet.Proofs.Steps

/-!
# The points of a run

A run works on one thing inside of another: on a list of statements, on one of them, on its expression,
on the operands of that one. A point of a run says what is worked on, in which state, and which
statements of the lists around it have been executed.

* `Eval.Step s a b`: in order to get on at the point `a`, the run works on the point `b`.
* `Eval.Reaches s a b`: it gets from `a` to `b` in some number of steps.
* `Eval.Reaches.stops`: a stop at a point is a stop at every point from which it is reached.
* `Eval.Along`: a relation between the results of two settings that the work at the points of a run keeps;
  `Along.executeAll`: it holds of whole runs.
-/

namespace Scriptlet

/-- A statement that was executed, with what it bound. -/
structure Done (σ : Type) where
  statement : Node
  bound : Option (Binding σ)

/-- The statements of a list that were executed, the latest in front. -/
abbrev Frame (σ : Type) := List (Done σ)

/-- What can be worked on. Before a list of statements there may have been others, of which the last one
had the given value. -/
inductive Task where
  | statements (last : Value) (es : List Node)
  | statement (e : Node)
  | expression (chained : Bool) (e : Node)
  | expressions (es : List Node)

/-- A point of a run: the statements executed in the lists around it, from the inside out, what is worked
on, and the state. -/
structure Point (σ : Type) where
  frames : List (Frame σ)
  task : Task
  machine : Machine σ

namespace Eval

variable {σ α β : Type}

open Result

/-- What a statement binds if it is executed. -/
def bound? (s : Setting σ) (m : Machine σ) : Node → Option (Binding σ)
  | .binding _ _ e =>
    match evaluate s false e m with
    | .ok v _ => some (.value v)
    | .error _ _ => none
  | .use _ module symbol _ => (s.registry.find? module symbol).map .native
  | _ => none

/-- The state in which the operands of a binary operation are evaluated: a chained one has no level of its
own. -/
inductive Enters (s : Setting σ) : Bool → Machine σ → Machine σ → Prop
  | chained {m : Machine σ} : Enters s true m m
  | level {m : Machine σ} : s.limits.Allows (m.depth + 1) → Enters s false m m.descend

/-- What a run works on next in order to get on at a point. -/
inductive Step (s : Setting σ) : Point σ → Point σ → Prop
  | first {f : Frame σ} {F : List (Frame σ)} {last : Value} {e : Node} {es : List Node}
      {m : Machine σ} :
      Step s ⟨f :: F, .statements last (e :: es), m⟩ ⟨f :: F, .statement e, m⟩
  | rest {f : Frame σ} {F : List (Frame σ)} {last v : Value} {e : Node} {es : List Node}
      {m m' : Machine σ} : execute s e m = .ok v m' →
      Step s ⟨f :: F, .statements last (e :: es), m⟩
        ⟨(⟨e, bound? s m e⟩ :: f) :: F, .statements v es, m'⟩
  | evaluated {F : List (Frame σ)} {span : Option Span} {e : Node} {m : Machine σ} :
      Step s ⟨F, .statement (.expression span e), m⟩ ⟨F, .expression false e, m⟩
  | assigned {F : List (Frame σ)} {span : Option Span} {name : String} {e : Node} {m : Machine σ} :
      Step s ⟨F, .statement (.binding span name e), m⟩ ⟨F, .expression false e, m⟩
  | block {F : List (Frame σ)} {span : Option Span} {es : List Node} {m : Machine σ} :
      s.limits.Allows (m.depth + 1) →
      Step s ⟨F, .statement (.block span es), m⟩
        ⟨[] :: F, .statements .unit es, m.descend.enterScope⟩
  | operand {F : List (Frame σ)} {c : Bool} {span : Option Span} {op : String} {a : Node}
      {m : Machine σ} : s.limits.Allows (m.depth + 1) →
      Step s ⟨F, .expression c (.unary span op a), m⟩ ⟨F, .expression false a, m.descend⟩
  | left {F : List (Frame σ)} {c : Bool} {span : Option Span} {op : String} {a b : Node}
      {m m₁ : Machine σ} : Enters s c m m₁ →
      Step s ⟨F, .expression c (.binary span a op b), m⟩ ⟨F, .expression true a, m₁⟩
  | right {F : List (Frame σ)} {c : Bool} {span : Option Span} {op : String} {a b : Node} {v : Value}
      {m m₁ m₂ : Machine σ} : Enters s c m m₁ → evaluate s true a m₁ = .ok v m₂ →
      shortcut span op v m₂ = .ok none m₂ →
      Step s ⟨F, .expression c (.binary span a op b), m⟩ ⟨F, .expression false b, m₂⟩
  | elements {F : List (Frame σ)} {c : Bool} {span : Option Span} {es : List Node} {m : Machine σ} :
      s.limits.Allows (m.depth + 1) →
      Step s ⟨F, .expression c (.tuple span es), m⟩ ⟨F, .expressions es, m.descend⟩
  | object {F : List (Frame σ)} {c : Bool} {span : Option Span} {a b : Node} {m : Machine σ} :
      s.limits.Allows (m.depth + 1) →
      Step s ⟨F, .expression c (.index span a b), m⟩ ⟨F, .expression false a, m.descend⟩
  | position {F : List (Frame σ)} {c : Bool} {span : Option Span} {a b : Node} {v : Value}
      {m m' : Machine σ} : s.limits.Allows (m.depth + 1) →
      evaluate s false a m.descend = .ok v m' →
      Step s ⟨F, .expression c (.index span a b), m⟩ ⟨F, .expression false b, m'⟩
  | arguments {F : List (Frame σ)} {c : Bool} {span : Option Span} {f : Node} {es : List Node}
      {n : Native σ} {m : Machine σ} : s.limits.Allows (m.depth + 1) →
      callee s.registry f m.descend = .ok n m.descend →
      Step s ⟨F, .expression c (.call span f es), m⟩ ⟨F, .expressions es, m.descend⟩
  | head {F : List (Frame σ)} {e : Node} {es : List Node} {m : Machine σ} :
      Step s ⟨F, .expressions (e :: es), m⟩ ⟨F, .expression false e, m⟩
  | tail {F : List (Frame σ)} {e : Node} {es : List Node} {v : Value} {m m' : Machine σ} :
      evaluate s false e m = .ok v m' →
      Step s ⟨F, .expressions (e :: es), m⟩ ⟨F, .expressions es, m'⟩

/-- The run gets from one point to another. -/
def Reaches (s : Setting σ) : Point σ → Point σ → Prop := Relation.ReflTransGen (Step s)

/-! ## Stops -/

/-- How a computation stopped, if it did. -/
def Result.stop? : Result σ α → Option Stop
  | .ok _ _ => none
  | .error stop _ => some stop

@[simp] theorem Result.stop?_mapState (f : Machine σ → Machine σ) (r : Result σ α) :
    stop? (mapState f r) = stop? r := by
  cases r <;> rfl

/-- How the work at a point stops, if it does. -/
def stop? (s : Setting σ) : Point σ → Option Stop
  | ⟨_, .statements last es, m⟩ => Result.stop? (executeAll s last es m)
  | ⟨_, .statement e, m⟩ => Result.stop? (execute s e m)
  | ⟨_, .expression chained e, m⟩ => Result.stop? (evaluate s chained e m)
  | ⟨_, .expressions es, m⟩ => Result.stop? (evaluateAll s es m)

theorem stop?_bind_of_ok {x : Eval σ α} {f : α → Eval σ β} {m m' : Machine σ} {a : α}
    (h : x m = .ok a m') : Result.stop? ((x >>= f) m) = Result.stop? (f a m') := by
  rw [bind_ok h]

theorem stop?_bind_of_stop {x : Eval σ α} {f : α → Eval σ β} {m : Machine σ} {stop : Stop}
    (h : Result.stop? (x m) = some stop) : Result.stop? ((x >>= f) m) = some stop := by
  cases hx : x m with
  | ok a m' => rw [hx] at h; cases h
  | error stop' m' =>
    rw [hx] at h
    rw [bind_error hx]
    exact h

theorem stop?_nested {limits : Limits} {m : Machine σ} (h : limits.Allows (m.depth + 1))
    (span : Option Span) (x : Eval σ α) :
    Result.stop? (nested limits span x m) = Result.stop? (x m.descend) := by
  rw [nested_of_allows h, Result.stop?_mapState]

theorem stop?_inScope (x : Eval σ α) (m : Machine σ) :
    Result.stop? (inScope x m) = Result.stop? (x m.enterScope) := by
  unfold inScope
  rw [andThen_apply, Result.stop?_mapState]

/-- The two operands of a binary operation, without the level it may have. -/
def operands (s : Setting σ) (span : Option Span) (a : Node) (op : String) (b : Node) :
    Eval σ Value := do
  let left ← evaluate s true a
  match ← shortcut span op left with
  | some v => pure v
  | none =>
    let right ← evaluate s false b
    combine span op left right

theorem stop?_binary {s : Setting σ} {c : Bool} {m m₁ : Machine σ} (h : Enters s c m m₁)
    (span : Option Span) (a : Node) (op : String) (b : Node) :
    Result.stop? (evaluate s c (.binary span a op b) m) =
      Result.stop? (operands s span a op b m₁) := by
  rw [evaluate]
  cases h with
  | chained => rfl
  | level hroom => exact stop?_nested hroom span _

theorem stop?_bind_cases {x : Eval σ α} {g : α → Eval σ β} {m : Machine σ} {stop : Stop}
    (h : Result.stop? ((x >>= g) m) = some stop) :
    Result.stop? (x m) = some stop ∨ ∃ a m', x m = .ok a m' ∧ Result.stop? (g a m') = some stop := by
  cases hx : x m with
  | error stop' m' =>
    rw [bind_error hx] at h
    exact .inl h
  | ok a m' =>
    rw [bind_ok hx] at h
    exact .inr ⟨a, m', rfl, h⟩

/-- A failure does not come from a limit. -/
theorem stop?_of_nested {limits : Limits} {span : Option Span} {x : Eval σ α} {f : Failure}
    {m : Machine σ} (h : Result.stop? (nested limits span x m) = some (.failure f)) :
    limits.Allows (m.depth + 1) ∧ Result.stop? (x m.descend) = some (.failure f) := by
  have hroom : limits.Allows (m.depth + 1) := by
    by_contra hno
    have hlimited := nested_limited hno span x
    cases hx : nested limits span x m with
    | ok a m' => rw [hx] at h; cases h
    | error stop m' =>
      rw [hx] at h hlimited
      cases h
      cases hlimited
  rw [stop?_nested hroom] at h
  exact ⟨hroom, h⟩

/-- What stops a part stops the whole. -/
theorem Step.stops {s : Setting σ} {a b : Point σ} (h : Step s a b) {stop : Stop}
    (hb : stop? s b = some stop) : stop? s a = some stop := by
  cases h with
  | first =>
    rw [stop?, executeAll]
    exact stop?_bind_of_stop hb
  | rest hok =>
    rw [stop?, executeAll, stop?_bind_of_ok hok]
    exact hb
  | evaluated =>
    rw [stop?, execute]
    exact hb
  | assigned =>
    rw [stop?, execute]
    exact stop?_bind_of_stop hb
  | block hroom =>
    rw [stop?, execute, stop?_nested hroom, stop?_inScope]
    exact hb
  | operand hroom =>
    rw [stop?, evaluate, stop?_nested hroom]
    exact stop?_bind_of_stop hb
  | left henter =>
    rw [stop?, stop?_binary henter, operands]
    exact stop?_bind_of_stop hb
  | right henter hleft hundecided =>
    rw [stop?, stop?_binary henter, operands, stop?_bind_of_ok hleft, stop?_bind_of_ok hundecided]
    exact stop?_bind_of_stop hb
  | elements hroom =>
    rw [stop?, evaluate, stop?_nested hroom]
    exact stop?_bind_of_stop hb
  | object hroom =>
    rw [stop?, evaluate, stop?_nested hroom]
    exact stop?_bind_of_stop hb
  | position hroom hobject =>
    rw [stop?, evaluate, stop?_nested hroom, stop?_bind_of_ok hobject]
    exact stop?_bind_of_stop hb
  | arguments hroom hcallee =>
    rw [stop?, evaluate, stop?_nested hroom, stop?_bind_of_ok hcallee]
    exact stop?_bind_of_stop hb
  | head =>
    rw [stop?, evaluateAll]
    exact stop?_bind_of_stop hb
  | tail hok =>
    rw [stop?, evaluateAll, stop?_bind_of_ok hok]
    exact stop?_bind_of_stop hb

theorem Reaches.stops {s : Setting σ} {a b : Point σ} (h : Reaches s a b) {stop : Stop}
    (hb : stop? s b = some stop) : stop? s a = some stop := by
  induction h using Relation.ReflTransGen.head_induction_on with
  | refl => exact hb
  | head hstep _ ih => exact hstep.stops ih

/-! ## Two settings along one run

Here a relation is between results, in one state, and what is asked of a step may depend on the point at
which it is done. The points are those of the run in the first setting. -/

/-- A relation between the results of two settings that all work at points with `H` keeps. -/
structure Along (s s' : Setting σ) (H : Point σ → Prop)
    (R : ∀ α : Type, Result σ α → Result σ α → Prop) : Prop where
  step : ∀ {a b : Point σ}, H a → Step s a b → H b
  ok : ∀ {α : Type} (a : α) (m : Machine σ), R α (.ok a m) (.ok a m)
  fail : ∀ {α : Type} (m : Machine σ) (span : Option Span) {cause : Cause},
    cause.isOperation = true ∨ cause = .invalidCallee → R α (fail span cause m) (fail span cause m)
  refuse : ∀ {α : Type} (m : Machine σ) (e : Malformed), R α (refuse e m) (refuse e m)
  bind : ∀ {α β : Type} {x y : Eval σ α} {f g : α → Eval σ β} {m : Machine σ}, R α (x m) (y m) →
    (∀ a m', x m = .ok a m' → R β (f a m') (g a m')) → R β ((x >>= f) m) ((y >>= g) m)
  nested : ∀ {x y : Eval σ Value} {m : Machine σ} (span : Option Span),
    (s.limits.Allows (m.depth + 1) → R Value (x m.descend) (y m.descend)) →
    R Value (nested s.limits span x m) (nested s'.limits span y m)
  inScope : ∀ {x y : Eval σ Value} {m : Machine σ}, R Value (x m.enterScope) (y m.enterScope) →
    R Value (inScope x m) (inScope y m)
  readName : ∀ {F : List (Frame σ)} {c : Bool} {span : Option Span} {name : String}
    {m : Machine σ}, H ⟨F, .expression c (.name span name), m⟩ → s.limits.Allows (m.depth + 1) →
    R Value (readName span name m.descend) (readName span name m.descend)
  resolve : ∀ {F : List (Frame σ)} {span : Option Span} {module symbol : String}
    {newName : Option String} {m : Machine σ}, H ⟨F, .statement (.use span module symbol newName), m⟩ →
    R (Native σ) (resolve s.registry span module symbol m) (resolve s'.registry span module symbol m)
  invoke : ∀ {F : List (Frame σ)} {c : Bool} {span : Option Span} {f : Node} {es : List Node}
    {n : Native σ} {args : List Value} {m m' : Machine σ},
    H ⟨F, .expression c (.call span f es), m⟩ → s.limits.Allows (m.depth + 1) →
    callee s.registry f m.descend = .ok n m.descend → evaluateAll s es m.descend = .ok args m' →
    R Value (invoke (.call span f es) n args m') (invoke (.call span f es) n args m')
  callee : ∀ {F : List (Frame σ)} {c : Bool} {span : Option Span} {f : Node} {es : List Node}
    {m : Machine σ}, H ⟨F, .expression c (.call span f es), m⟩ → s.limits.Allows (m.depth + 1) →
    R (Native σ) (callee s.registry f m.descend) (callee s'.registry f m.descend)

namespace Along

variable {s s' : Setting σ} {H : Point σ → Prop} {R : ∀ α : Type, Result σ α → Result σ α → Prop}

section

variable (h : Along s s' H R)

include h

theorem settle (m : Machine σ) (span : Option Span) {r : Except Cause α}
    (hr : ∀ cause, r = .error cause → cause.isOperation = true) :
    R α (settle span r m) (settle span r m) := by
  cases r with
  | ok a => exact h.ok a m
  | error cause => exact h.fail m span (.inl (hr cause rfl))

theorem shortcut (m : Machine σ) (span : Option Span) (op : String) (left : Value) :
    R (Option Value) (shortcut span op left m) (shortcut span op left m) := by
  unfold Eval.shortcut
  cases BinaryOperator.ofText? op with
  | some operator => exact h.settle m span fun _ => Operation.isOperation_of_shortcut
  | none => exact h.ok none m

theorem combine (m : Machine σ) (span : Option Span) (op : String) (left right : Value) :
    R Value (combine span op left right m) (combine span op left right m) := by
  unfold Eval.combine
  cases BinaryOperator.ofText? op with
  | some operator => exact h.settle m span fun _ => Operation.isOperation_of_binary
  | none => exact h.refuse m _

end

/-! The inductions are over the tree, and `H` is passed on along the steps of the run. -/

mutual

theorem evaluate (h : Along s s' H R) (F : List (Frame σ)) :
    ∀ (e : Node) (c : Bool) (m : Machine σ), H ⟨F, .expression c e, m⟩ →
      R Value (evaluate s c e m) (evaluate s' c e m)
  | .literal span v, c, m, _ => by
    rw [Eval.evaluate, Eval.evaluate]
    exact h.nested span fun _ => h.ok v _
  | .name span name, c, m, hq => by
    rw [Eval.evaluate, Eval.evaluate]
    exact h.nested span fun hroom => h.readName hq hroom
  | .unary span op a, c, m, hq => by
    rw [Eval.evaluate, Eval.evaluate]
    refine h.nested span fun hroom => ?_
    have ha := evaluate h F a false m.descend (h.step hq (.operand hroom))
    exact h.bind ha fun _ m' _ => h.settle m' span fun _ => Operation.isOperation_of_unary
  | .binary span a op b, c, m, hq => by
    have hbody {m₁ : Machine σ} (henter : Enters s c m m₁) :
        R Value (operands s span a op b m₁) (operands s' span a op b m₁) := by
      have ha := evaluate h F a true m₁ (h.step hq (.left henter))
      refine h.bind ha fun left m₂ hleft => ?_
      refine h.bind (h.shortcut m₂ span op left) fun decided m₃ hdecided => ?_
      obtain rfl := (looks_shortcut span op left).of_ok hdecided
      cases decided with
      | some v => exact h.ok v m₃
      | none =>
        have hb := evaluate h F b false m₃ (h.step hq (.right henter hleft hdecided))
        exact h.bind hb fun right m₄ _ => h.combine m₄ span op left right
    rw [Eval.evaluate, Eval.evaluate]
    cases c with
    | true => exact hbody .chained
    | false => exact h.nested span fun hroom => hbody (.level hroom)
  | .tuple span es, c, m, hq => by
    rw [Eval.evaluate, Eval.evaluate]
    refine h.nested span fun hroom => ?_
    have hes := evaluateAll h F es m.descend (h.step hq (.elements hroom))
    exact h.bind hes fun vs m' _ => h.ok _ m'
  | .index span a b, c, m, hq => by
    rw [Eval.evaluate, Eval.evaluate]
    refine h.nested span fun hroom => ?_
    have ha := evaluate h F a false m.descend (h.step hq (.object hroom))
    refine h.bind ha fun object m' hobject => ?_
    have hb := evaluate h F b false m' (h.step hq (.position hroom hobject))
    exact h.bind hb fun _ m'' _ => h.settle m'' span fun _ => Operation.isOperation_of_element
  | .path span _ _, c, m, _ => by
    rw [Eval.evaluate, Eval.evaluate]
    exact h.nested span fun _ => h.fail _ span (.inr rfl)
  | .call span f es, c, m, hq => by
    rw [Eval.evaluate, Eval.evaluate]
    refine h.nested span fun hroom => ?_
    -- The callee is resolved before the arguments are evaluated.
    refine h.bind (h.callee hq hroom) fun n m' hcallee => ?_
    obtain rfl := (looks_callee s.registry f).of_ok hcallee
    have hes := evaluateAll h F es m.descend (h.step hq (.arguments hroom hcallee))
    exact h.bind hes fun args m'' hargs => h.invoke hq hroom hcallee hargs
  | .binding span _ _, c, m, _ | .expression span _, c, m, _ | .block span _, c, m, _
  | .use span _ _ _, c, m, _ | .program span _, c, m, _ | .blank span _, c, m, _ => by
    rw [Eval.evaluate, Eval.evaluate]
    exact h.nested span fun _ => h.refuse _ _

theorem evaluateAll (h : Along s s' H R) (F : List (Frame σ)) :
    ∀ (es : List Node) (m : Machine σ), H ⟨F, .expressions es, m⟩ →
      R (List Value) (evaluateAll s es m) (evaluateAll s' es m)
  | [], m, _ => by
    rw [Eval.evaluateAll, Eval.evaluateAll]
    exact h.ok [] m
  | e :: es, m, hq => by
    rw [Eval.evaluateAll, Eval.evaluateAll]
    have he := evaluate h F e false m (h.step hq .head)
    refine h.bind he fun v m' hok => ?_
    have hes := evaluateAll h F es m' (h.step hq (.tail hok))
    exact h.bind hes fun vs m'' _ => h.ok _ m''

end

mutual

theorem execute (h : Along s s' H R) (F : List (Frame σ)) :
    ∀ (e : Node) (m : Machine σ), H ⟨F, .statement e, m⟩ → R Value (execute s e m) (execute s' e m)
  | .expression span e, m, hq => by
    rw [Eval.execute, Eval.execute]
    exact h.evaluate F e false m (h.step hq .evaluated)
  | .binding span name e, m, hq => by
    rw [Eval.execute, Eval.execute]
    have he := h.evaluate F e false m (h.step hq .assigned)
    exact h.bind he fun _ _ _ => h.ok _ _
  | .block span es, m, hq => by
    rw [Eval.execute, Eval.execute]
    refine h.nested span fun hroom => h.inScope ?_
    exact executeAll h [] F es .unit m.descend.enterScope (h.step hq (.block hroom))
  | .use span module symbol newName, m, hq => by
    rw [Eval.execute, Eval.execute]
    exact h.bind (h.resolve hq) fun _ _ _ => h.ok _ _
  | .literal _ _, m, _ | .name _ _, m, _ | .unary _ _ _, m, _ | .binary _ _ _ _, m, _
  | .tuple _ _, m, _ | .index _ _ _, m, _ | .path _ _ _, m, _ | .call _ _ _, m, _
  | .program _ _, m, _ | .blank _ _, m, _ => by
    rw [Eval.execute, Eval.execute]
    exact h.refuse m _

/-- The results of a list of statements are related. -/
theorem executeAll (h : Along s s' H R) (earlier : Frame σ) (F : List (Frame σ)) :
    ∀ (es : List Node) (last : Value) (m : Machine σ),
      H ⟨earlier :: F, .statements last es, m⟩ →
        R Value (executeAll s last es m) (executeAll s' last es m)
  | [], last, m, _ => by
    rw [Eval.executeAll, Eval.executeAll]
    exact h.ok last m
  | e :: es, last, m, hq => by
    rw [Eval.executeAll, Eval.executeAll]
    have he := execute h (earlier :: F) e m (h.step hq .first)
    refine h.bind he fun v m' hok => ?_
    exact executeAll h (⟨e, bound? s m e⟩ :: earlier) F es v m' (h.step hq (.rest hok))

end

end Along

end Eval

end Scriptlet
