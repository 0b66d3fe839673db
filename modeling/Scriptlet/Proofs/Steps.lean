import Scriptlet.Proofs.Levels

/-!
# Steps that only look

Most steps of an evaluation look at the state and leave it as it is: only a native function, a binding, a
scope and a level change it.

* `Looks x`: `x` leaves the state as it is, whether or not it stops.
* `nested_cases`: what a level does to a computation.
-/

namespace Scriptlet.Eval

variable {σ α : Type}

open Result

/-- A computation that leaves the state as it is. -/
def Looks (x : Eval σ α) : Prop := ∀ m, state (x m) = m

theorem Looks.of_ok {x : Eval σ α} (h : Looks x) {m m' : Machine σ} {a : α} (hx : x m = .ok a m') :
    m' = m := by
  have hm := h m
  rw [hx] at hm
  exact hm

theorem looks_pure (a : α) : Looks (pure a : Eval σ α) := fun _ => rfl

theorem looks_fail (span : Option Span) (cause : Cause) : Looks (fail span cause : Eval σ α) :=
  fun _ => rfl

theorem looks_refuse (m : Malformed) : Looks (refuse m : Eval σ α) := fun _ => rfl

theorem looks_settle (span : Option Span) (r : Except Cause α) :
    Looks (settle span r : Eval σ α) := by
  cases r with
  | ok a => exact looks_pure a
  | error cause => exact looks_fail span cause

theorem readName_apply (span : Option Span) (name : String) (m : Machine σ) :
    readName span name m =
      match m.env.lookup name with
      | none => .error (.failure (.atSpan m.lines span (.undefinedName name))) m
      | some (.native n) => .error (.failure (.atSpan m.lines span (.notAValue name n.name))) m
      | some (.value v) => .ok v m := by
  rw [readName, get_bind_apply]
  cases m.env.lookup name with
  | none => rfl
  | some b => cases b <;> rfl

theorem looks_readName (span : Option Span) (name : String) :
    Looks (readName span name : Eval σ Value) := by
  intro m
  rw [readName_apply]
  split <;> rfl

/-! ## Paths -/

/-- How the resolution of a path fails. -/
inductive Missing (registry : Registry σ) (module symbol : String) : Cause → Prop
  | module : registry.get? module = none → Missing registry module symbol (.unknownModule module symbol)
  | symbol {table : NativeModule σ} : registry.get? module = some table → table.get? symbol = none →
      Missing registry module symbol (.unknownSymbol module symbol)

theorem resolve_of_find? {registry : Registry σ} {module symbol : String} {n : Native σ}
    (h : registry.find? module symbol = some n) (span : Option Span) :
    resolve registry span module symbol = pure n := by
  obtain ⟨table, htable, hsymbol⟩ := Option.bind_eq_some_iff.1 h
  simp only [resolve, htable, hsymbol]

theorem resolve_of_missing {registry : Registry σ} {module symbol : String} {cause : Cause}
    (h : Missing registry module symbol cause) (span : Option Span) :
    resolve registry span module symbol = fail span cause := by
  cases h with
  | module hmodule => simp only [resolve, hmodule]
  | symbol hmodule hsymbol => simp only [resolve, hmodule, hsymbol]

theorem exists_missing {registry : Registry σ} {module symbol : String}
    (h : registry.find? module symbol = none) : ∃ cause, Missing registry module symbol cause := by
  unfold Registry.find? at h
  cases htable : registry.get? module with
  | none => exact ⟨_, .module htable⟩
  | some table =>
    rw [htable] at h
    exact ⟨_, .symbol htable h⟩

/-- A path leads to a function, or its resolution fails. -/
theorem resolve_cases (registry : Registry σ) (span : Option Span) (module symbol : String) :
    (∃ n, registry.find? module symbol = some n ∧ resolve registry span module symbol = pure n) ∨
      ∃ cause, Missing registry module symbol cause ∧
        resolve registry span module symbol = fail span cause := by
  cases hfind : registry.find? module symbol with
  | some n => exact .inl ⟨n, rfl, resolve_of_find? hfind span⟩
  | none =>
    obtain ⟨cause, hmissing⟩ := exists_missing hfind
    exact .inr ⟨cause, hmissing, resolve_of_missing hmissing span⟩

theorem looks_resolve (registry : Registry σ) (span : Option Span) (module symbol : String) :
    Looks (resolve registry span module symbol) := by
  obtain ⟨n, -, hresolve⟩ | ⟨cause, -, hresolve⟩ := resolve_cases registry span module symbol
  · rw [hresolve]
    exact looks_pure n
  · rw [hresolve]
    exact looks_fail span cause

theorem find?_of_resolve {registry : Registry σ} {span : Option Span} {module symbol : String}
    {n : Native σ} {m m' : Machine σ} (h : resolve registry span module symbol m = .ok n m') :
    registry.find? module symbol = some n ∧ m' = m := by
  obtain ⟨n', hfind, hresolve⟩ | ⟨cause, -, hresolve⟩ := resolve_cases registry span module symbol
  · rw [hresolve] at h
    cases h
    exact ⟨hfind, rfl⟩
  · rw [hresolve] at h
    cases h

/-! ## Callees -/

theorem callee_name_apply (registry : Registry σ) (span : Option Span) (name : String)
    (m : Machine σ) :
    callee registry (.name span name) m =
      match m.env.lookup name with
      | none => .error (.failure (.atSpan m.lines span (.undefinedName name))) m
      | some (.value v) => .error (.failure (.atSpan m.lines span (.notCallable name v.kind))) m
      | some (.native n) => .ok n m := by
  rw [callee, get_bind_apply]
  cases m.env.lookup name with
  | none => rfl
  | some b => cases b <;> rfl

theorem looks_callee (registry : Registry σ) (f : Node) : Looks (callee registry f) := by
  cases f with
  | path span module symbol => exact looks_resolve registry span module symbol
  | name span name =>
    intro m
    rw [callee_name_apply]
    split <;> rfl
  | _ => exact looks_fail _ _

theorem looks_shortcut (span : Option Span) (operator : String) (left : Value) :
    Looks (shortcut span operator left : Eval σ (Option Value)) := by
  unfold shortcut
  split
  · exact looks_settle _ _
  · exact looks_pure _

/-- A level stops at once, or it runs the computation one level down. -/
theorem nested_cases (limits : Limits) (span : Option Span) (x : Eval σ α) (m : Machine σ) :
    (∃ stop, nested limits span x m = .error stop m.descend) ∨
      nested limits span x m = mapState Machine.ascend (x m.descend) := by
  unfold nested
  split_ifs
  · exact .inl ⟨_, rfl⟩
  · exact .inl ⟨_, rfl⟩
  · exact .inr (andThen_apply x _ _)

end Scriptlet.Eval
