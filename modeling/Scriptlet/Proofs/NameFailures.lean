import Scriptlet.Proofs.Reach

/-!
# Failures because of names

A run fails because of a name where it looks the name up: the name may be unknown, stand for a native
function where a value is asked for, or for a value where a native function is.

* `LooksUp s q role span name`: at the point `q` a name is looked up.
* `LooksUp.stops`: how a run stops there if the name does not stand for what is asked for.
* `executeAll_traced`: a failure with such a cause comes from a look-up that the run reached, or it is
  the answer of a native function.
-/

namespace Scriptlet

/-- What a name is used for. -/
inductive Role where
  | value
  | callee
  deriving DecidableEq

/-- Is it the cause of a look-up that fails, or one that can look like it because host code made it up? -/
def Cause.isLookup : Cause → Bool
  | .undefinedName _ | .notCallable _ _ | .notAValue _ _ | .custom _ _ _ _ _ => true
  | _ => false

theorem isLookup_of_code {cause : Cause} (h : cause.code ∈ ["E201", "E304", "E305"]) :
    cause.isLookup = true := by
  cases cause with
  | undefinedName | notCallable | notAValue | custom => rfl
  | invalidNumber radix => cases radix <;> simp [Cause.code] at h
  | _ => simp [Cause.code] at h

namespace Eval

variable {σ : Type}

open Result

/-- At a point of a run a name is looked up. -/
inductive LooksUp (s : Setting σ) : Point σ → Role → Option Span → String → Prop
  | value {F : List (Frame σ)} {c : Bool} {span : Option Span} {name : String} {m : Machine σ} :
      s.limits.Allows (m.depth + 1) →
      LooksUp s ⟨F, .expression c (.name span name), m⟩ .value span name
  | callee {F : List (Frame σ)} {c : Bool} {place span : Option Span} {name : String}
      {es : List Node} {m : Machine σ} : s.limits.Allows (m.depth + 1) →
      LooksUp s ⟨F, .expression c (.call place (.name span name) es), m⟩ .callee span name

/-! ## Look-ups that fail -/

/-- How the look-up of a name fails, by what the name stands for. -/
def fault? (role : Role) (name : String) : Option (Binding σ) → Option Cause
  | none => some (.undefinedName name)
  | some (.value v) =>
    match role with
    | .value => none
    | .callee => some (.notCallable name v.kind)
  | some (.native n) =>
    match role with
    | .value => some (.notAValue name n.name)
    | .callee => none

theorem stop?_readName (span : Option Span) (name : String) (m : Machine σ) :
    Result.stop? (readName span name m) =
      (fault? .value name (m.env.lookup name)).map fun cause =>
        .failure (.atSpan m.lines span cause) := by
  rw [readName_apply]
  rcases m.env.lookup name with _ | (v | n) <;> rfl

theorem stop?_callee_name (registry : Registry σ) (span : Option Span) (name : String)
    (m : Machine σ) :
    Result.stop? (callee registry (.name span name) m) =
      (fault? .callee name (m.env.lookup name)).map fun cause =>
        .failure (.atSpan m.lines span cause) := by
  rw [callee_name_apply]
  rcases m.env.lookup name with _ | (v | n) <;> rfl

/-- The value of a name that stands for a value. -/
theorem evaluate_name {s : Setting σ} {m : Machine σ} (hroom : s.limits.Allows (m.depth + 1))
    {name : String} {v : Value} (h : m.env.lookup name = some (.value v)) (c : Bool)
    (span : Option Span) : evaluate s c (.name span name) m = .ok v m := by
  have hdescend : m.descend.env.lookup name = some (.value v) := h
  rw [evaluate, nested_of_allows hroom, readName_apply, hdescend]
  rfl

/-- The callee of a name that stands for a native function. -/
theorem callee_name {m : Machine σ} {name : String} {n : Native σ}
    (h : m.env.lookup name = some (.native n)) (registry : Registry σ) (span : Option Span) :
    callee registry (.name span name) m = .ok n m := by
  rw [callee_name_apply, h]

theorem LooksUp.room {s : Setting σ} {q : Point σ} {role : Role} {span : Option Span}
    {name : String} (h : LooksUp s q role span name) : s.limits.Allows (q.machine.depth + 1) := by
  cases h with
  | value hroom => exact hroom
  | callee hroom => exact hroom

/-- A look-up that fails stops the work at its point. -/
theorem LooksUp.stops {s : Setting σ} {q : Point σ} {role : Role} {span : Option Span}
    {name : String} {cause : Cause} (h : LooksUp s q role span name)
    (hfault : fault? role name (q.machine.env.lookup name) = some cause) :
    stop? s q = some (.failure (.atSpan q.machine.lines span cause)) := by
  cases h with
  | value hroom =>
    rw [stop?, evaluate, stop?_nested hroom, stop?_readName]
    exact congrArg _ hfault
  | callee hroom =>
    rw [stop?, evaluate, stop?_nested hroom]
    refine stop?_bind_of_stop ?_
    rw [stop?_callee_name]
    exact congrArg _ hfault

/-! ## Where a failure comes from -/

/-- A point where a failure comes from: the look-up of a name, or a native function that answered with
it. -/
inductive Origin (s : Setting σ) (f : Failure) : Point σ → Prop
  | lookup {q : Point σ} {role : Role} {span : Option Span} {name : String} {cause : Cause} :
      LooksUp s q role span name → fault? role name (q.machine.env.lookup name) = some cause →
      f = .atSpan q.machine.lines span cause → Origin s f q
  | native {F : List (Frame σ)} {c : Bool} {span : Option Span} {g : Node} {es : List Node}
      {n : Native σ} {args : List Value} {m m' : Machine σ} : s.limits.Allows (m.depth + 1) →
      callee s.registry g m.descend = .ok n m.descend → evaluateAll s es m.descend = .ok args m' →
      (n.run args m'.natives).1 = .failure f → Origin s f ⟨F, .expression c (.call span g es), m⟩

/-- The failure comes from a point that is reached from here. -/
def Traced (s : Setting σ) (f : Failure) (q : Point σ) : Prop :=
  ∃ q', Reaches s q q' ∧ Origin s f q'

theorem isLookup_of_isOperation {cause : Cause} (h : cause.isOperation = true) :
    cause.isLookup = false := by
  cases cause with
  | undefinedName | notCallable | notAValue | custom => cases h
  | _ => rfl

theorem isLookup_of_missing {registry : Registry σ} {module symbol : String} {cause : Cause}
    (h : Missing registry module symbol cause) : cause.isLookup = false := by
  cases h <;> rfl

/-- A native function that is called fails with an answer of its own, or not because of a name. -/
theorem run_of_stop?_invoke {call : Node} {n : Native σ} {args : List Value} {m : Machine σ}
    {f : Failure} (h : Result.stop? (invoke call n args m) = some (.failure f))
    (hf : f.cause.isLookup = true) : (n.run args m.natives).1 = .failure f := by
  rw [invoke_apply] at h
  cases hrun : (n.run args m.natives).1 with
  | value v | unreadable kind =>
    rw [hrun] at h
    cases h
  | foreign typeName | escaped kind text =>
    rw [hrun] at h
    cases h
    cases hf
  | failure g =>
    rw [hrun] at h
    cases h
    rfl

section

variable {s : Setting σ} {f : Failure} {q₀ : Point σ}

/-- The callee of a call fails because of its name only. -/
theorem traced_of_callee (hf : f.cause.isLookup = true) {F : List (Frame σ)} {c : Bool}
    {span : Option Span} {g : Node} {es : List Node} {m : Machine σ}
    (hroom : s.limits.Allows (m.depth + 1))
    (hq : Reaches s q₀ ⟨F, .expression c (.call span g es), m⟩)
    (h : Result.stop? (callee s.registry g m.descend) = some (.failure f)) : Traced s f q₀ := by
  cases g with
  | name place name =>
    rw [stop?_callee_name] at h
    obtain ⟨cause, hcause, hfailure⟩ := Option.map_eq_some_iff.1 h
    exact ⟨_, hq, .lookup (.callee hroom) hcause (Stop.failure.inj hfailure).symm⟩
  | path place module symbol =>
    obtain ⟨n, -, hn⟩ | ⟨cause, hmissing, hfail⟩ := resolve_cases s.registry place module symbol
    · rw [callee, hn] at h
      cases h
    · rw [callee, hfail] at h
      cases h
      cases (isLookup_of_missing hmissing).symm.trans hf
  | _ =>
    cases h
    cases hf

/-- A failure because of a name that ends the work at a point comes from a point that is reached. -/
theorem along_traced (hf : f.cause.isLookup = true) :
    Along s s (Reaches s q₀)
      (fun _ r _ => Result.stop? r = some (.failure f) → Traced s f q₀) where
  step hq hstep := hq.tail hstep
  ok _ _ h := by cases h
  fail m span cause hcause h := by
    cases h
    obtain hoperation | rfl := hcause
    · cases (isLookup_of_isOperation hoperation).symm.trans hf
    · cases hf
  refuse _ _ h := by cases h
  bind hx hrest h := by
    obtain hstop | ⟨a, m', hok, hstop⟩ := stop?_bind_cases h
    · exact hx hstop
    · exact hrest a m' hok hstop
  nested span hx h := by
    obtain ⟨hroom, hstop⟩ := stop?_of_nested h
    exact hx hroom hstop
  inScope hx h := by
    rw [stop?_inScope] at h
    exact hx h
  readName hq hroom h := by
    rw [stop?_readName] at h
    obtain ⟨cause, hcause, hfailure⟩ := Option.map_eq_some_iff.1 h
    exact ⟨_, hq, .lookup (.value hroom) hcause (Stop.failure.inj hfailure).symm⟩
  resolve {_ span module symbol _ _} _ h := by
    obtain ⟨n, -, hn⟩ | ⟨cause, hmissing, hfail⟩ := resolve_cases s.registry span module symbol
    · rw [hn] at h
      cases h
    · rw [hfail] at h
      cases h
      cases (isLookup_of_missing hmissing).symm.trans hf
  callee hq hroom h := traced_of_callee hf hroom hq h
  invoke hq hroom hcallee hargs h :=
    ⟨_, hq, .native hroom hcallee hargs (run_of_stop?_invoke h hf)⟩

theorem executeAll_traced (hf : f.cause.isLookup = true) (earlier : Frame σ) (F : List (Frame σ))
    (es : List Node) (last : Value) (m : Machine σ)
    (h : Result.stop? (executeAll s last es m) = some (.failure f)) :
    Traced s f ⟨earlier :: F, .statements last es, m⟩ :=
  (along_traced hf).executeAll earlier F es last m .refl h

end

end Eval

end Scriptlet
