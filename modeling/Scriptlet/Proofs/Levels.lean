import Mathlib.Tactic.Common
import Scriptlet.Eval.Basic

/-!
# Levels of nesting

A computation that goes one level too deep stops at a limit, and nothing else in a computation looks at
the number of open levels. This module says so once for each way in which computations are put
together.

* `Relaxes x y`: whatever `x` does without stopping at a limit, `y` does too, also from fewer open
  levels. Pure steps, sequences and levels keep the relation, and `Relaxes.drop` takes a level away.
* `Fits limits n x`: with room for `n` more levels, `x` does not stop at a limit.
-/

namespace Scriptlet

/-- Is this the stop of a computation that went one level too deep? -/
def Stop.isLimit : Stop → Bool
  | .tooDeep _ | .exhausted => true
  | .failure _ | .malformed _ | .exception _ => false

theorem Stop.isLimit_ofTrouble (trouble : Native.Trouble) :
    (Stop.ofTrouble trouble).isLimit = false := by
  cases trouble <;> rfl

/-- May `n` levels be open at once? -/
def Limits.Allows (limits : Limits) (n : Nat) : Prop :=
  n ≤ limits.maxDepth ∧ n ≤ limits.stackDepth

theorem Limits.Allows.mono {limits : Limits} {k n : Nat} (h : limits.Allows n) (hk : k ≤ n) :
    limits.Allows k :=
  ⟨Nat.le_trans hk h.1, Nat.le_trans hk h.2⟩

namespace Machine

variable {σ : Type}

/-- The state with another number of open levels. -/
def atDepth (m : Machine σ) (d : Nat) : Machine σ := { m with depth := d }

@[simp] theorem atDepth_depth (m : Machine σ) (d : Nat) : (m.atDepth d).depth = d := rfl

@[simp] theorem atDepth_self (m : Machine σ) : m.atDepth m.depth = m := rfl

@[simp] theorem atDepth_atDepth (m : Machine σ) (c d : Nat) :
    (m.atDepth c).atDepth d = m.atDepth d := rfl

theorem descend_eq (m : Machine σ) : m.descend = m.atDepth (m.depth + 1) := rfl

theorem descend_depth (m : Machine σ) : m.descend.depth = m.depth + 1 := rfl

theorem ascend_eq (m : Machine σ) : m.ascend = m.atDepth (m.depth - 1) := rfl

/-- The events of a call: the call, and the exception that the native function let escape, if it did. -/
def callEvents (call : Node) (n : Native σ) (args : List Value) : Native.Answer → List (Event σ)
  | .escaped kind text => [.invoked call n args, .escaped n kind text]
  | _ => [.invoked call n args]

/-- The state after a call of a native function. -/
def called (m : Machine σ) (call : Node) (n : Native σ) (args : List Value) : Machine σ :=
  { m with
    natives := (n.run args m.natives).2
    trace := m.trace ++ callEvents call n args (n.run args m.natives).1 }

end Machine

namespace Eval

variable {σ α β : Type}

/-! ## Results -/

/-- What a computation ends with: a value or a stop, and the state it leaves. -/
abbrev Result (σ α : Type) := EStateM.Result Stop (Machine σ) α

namespace Result

/-- Did the computation stop at a limit? -/
def Limited : Result σ α → Prop
  | .ok _ _ => False
  | .error stop _ => stop.isLimit = true

/-- The state that a computation leaves. -/
def state : Result σ α → Machine σ
  | .ok _ m => m
  | .error _ m => m

/-- The result with its state changed. -/
def mapState (f : Machine σ → Machine σ) : Result σ α → Result σ α
  | .ok a m => .ok a (f m)
  | .error stop m => .error stop (f m)

@[simp] theorem limited_mapState (f : Machine σ → Machine σ) (r : Result σ α) :
    Limited (mapState f r) ↔ Limited r := by
  cases r <;> rfl

@[simp] theorem state_mapState (f : Machine σ → Machine σ) (r : Result σ α) :
    state (mapState f r) = f (state r) := by
  cases r <;> rfl

theorem mapState_mapState (f g : Machine σ → Machine σ) (r : Result σ α) :
    mapState f (mapState g r) = mapState (f ∘ g) r := by
  cases r <;> rfl

/-- The result in a state with another number of open levels. -/
def atDepth (d : Nat) (r : Result σ α) : Result σ α := mapState (·.atDepth d) r

theorem atDepth_of_depth_eq {r : Result σ α} {d : Nat} (h : (state r).depth = d) :
    atDepth d r = r := by
  subst h
  cases r <;> rfl

end Result

open Result

/-! ## Putting computations together -/

theorem bind_ok {x : Eval σ α} {f : α → Eval σ β} {m m' : Machine σ} {a : α}
    (h : x m = .ok a m') : (x >>= f) m = f a m' := by
  simp only [bind, EStateM.bind, h]

theorem bind_error {x : Eval σ α} {f : α → Eval σ β} {m m' : Machine σ} {stop : Stop}
    (h : x m = .error stop m') : (x >>= f) m = .error stop m' := by
  simp only [bind, EStateM.bind, h]

theorem andThen_apply (x : Eval σ α) (after : Machine σ → Machine σ) (m : Machine σ) :
    andThen x after m = mapState after (x m) := by
  unfold andThen mapState
  cases x m <;> rfl

/-- One level down, if there is room for it. -/
theorem nested_of_allows {limits : Limits} {m : Machine σ} (h : limits.Allows (m.depth + 1))
    (span : Option Span) (x : Eval σ α) :
    nested limits span x m = mapState Machine.ascend (x m.descend) := by
  unfold nested
  rw [if_neg (Nat.not_lt.2 h.1), if_neg (Nat.not_lt.2 h.2), andThen_apply]

/-- Without room for a level the computation stops at a limit. -/
theorem nested_limited {limits : Limits} {m : Machine σ} (h : ¬ limits.Allows (m.depth + 1))
    (span : Option Span) (x : Eval σ α) : Limited (nested limits span x m) := by
  unfold nested
  split_ifs with h₁ h₂
  · rfl
  · rfl
  · exact absurd ⟨Nat.not_lt.1 h₁, Nat.not_lt.1 h₂⟩ h

/-! ## Less depth, the same result -/

/-- `y` does what `x` does unless `x` stops at a limit, also with fewer open levels; neither leaves a
level open. -/
def Relaxes (x y : Eval σ α) : Prop :=
  ∀ (m : Machine σ) (d : Nat), d ≤ m.depth → ¬ Limited (x m) →
    (state (x m)).depth = m.depth ∧ y (m.atDepth d) = Result.atDepth d (x m)

namespace Relaxes

theorem eq_of_not_limited {x y : Eval σ α} (h : Relaxes x y) {m : Machine σ}
    (hm : ¬ Limited (x m)) : y m = x m := by
  obtain ⟨hd, hy⟩ := h m m.depth (Nat.le_refl _) hm
  rw [← atDepth_of_depth_eq hd, ← hy, Machine.atDepth_self]

theorem bind {x y : Eval σ α} {f g : α → Eval σ β} (h : Relaxes x y)
    (hf : ∀ a, Relaxes (f a) (g a)) : Relaxes (x >>= f) (y >>= g) := by
  intro m d hd hlim
  cases hx : x m with
  | error stop m₁ =>
    rw [bind_error hx] at hlim ⊢
    obtain ⟨hdepth, hy⟩ := h m d hd (by rwa [hx])
    rw [hx] at hdepth hy
    exact ⟨hdepth, bind_error hy⟩
  | ok a m₁ =>
    rw [bind_ok hx] at hlim ⊢
    obtain ⟨hdepth, hy⟩ := h m d hd (by rw [hx]; exact id)
    rw [hx] at hdepth hy
    change m₁.depth = m.depth at hdepth
    obtain ⟨hdepth', hg⟩ := hf a m₁ d (by rw [hdepth]; exact hd) hlim
    exact ⟨hdepth'.trans hdepth, (bind_ok hy).trans hg⟩

/-- A level of the tighter computation needs no counterpart. -/
theorem drop {x y : Eval σ α} (h : Relaxes x y) (limits : Limits) (span : Option Span) :
    Relaxes (nested limits span x) y := by
  intro m d hd hlim
  have hroom : limits.Allows (m.depth + 1) := by
    by_contra hno
    exact hlim (nested_limited hno span x)
  rw [nested_of_allows hroom] at hlim ⊢
  rw [limited_mapState] at hlim
  obtain ⟨hdepth, hy⟩ := h m.descend d (by rw [Machine.descend_depth]; omega) hlim
  refine ⟨?_, ?_⟩
  · rw [state_mapState, Machine.ascend_eq, hdepth, Machine.descend_eq]
    simp
  · rw [Machine.descend_eq, Machine.atDepth_atDepth] at hy
    rw [hy, Machine.descend_eq]
    unfold Result.atDepth
    rw [mapState_mapState]
    rfl

/-- A level of both computations, the second one under limits that are no tighter. -/
theorem level {x y : Eval σ α} {limits limits' : Limits} (h : Relaxes x y)
    (hlimits : ∀ n, limits.Allows n → limits'.Allows n) (span : Option Span) :
    Relaxes (nested limits span x) (nested limits' span y) := by
  intro m d hd hlim
  have hroom : limits.Allows (m.depth + 1) := by
    by_contra hno
    exact hlim (nested_limited hno span x)
  have hroom' : limits'.Allows ((m.atDepth d).depth + 1) :=
    hlimits _ (hroom.mono (Nat.succ_le_succ hd))
  rw [nested_of_allows hroom] at hlim ⊢
  rw [limited_mapState] at hlim
  obtain ⟨hdepth, hy⟩ := h m.descend (d + 1) (Nat.succ_le_succ hd) hlim
  refine ⟨?_, ?_⟩
  · rw [state_mapState, Machine.ascend_eq, hdepth, Machine.descend_eq]
    simp
  · have hdown : (m.atDepth d).descend = m.descend.atDepth (d + 1) := rfl
    rw [nested_of_allows hroom', hdown, hy]
    unfold Result.atDepth
    rw [mapState_mapState, mapState_mapState]
    rfl

end Relaxes

/-! ## Steps without levels -/

/-- A computation that opens no level and does not look at how many are open. -/
structure LevelFree (x : Eval σ α) : Prop where
  depth_eq : ∀ m, (state (x m)).depth = m.depth
  atDepth_apply : ∀ m d, x (m.atDepth d) = Result.atDepth d (x m)
  not_limited : ∀ m, ¬ Limited (x m)

theorem LevelFree.relaxes {x : Eval σ α} (h : LevelFree x) : Relaxes x x :=
  fun m d _ _ => ⟨h.depth_eq m, h.atDepth_apply m d⟩

theorem levelFree_pure (a : α) : LevelFree (pure a : Eval σ α) :=
  ⟨fun _ => rfl, fun _ _ => rfl, fun _ => id⟩

theorem levelFree_fail (span : Option Span) (cause : Cause) :
    LevelFree (fail span cause : Eval σ α) :=
  ⟨fun _ => rfl, fun _ _ => rfl, fun _ => Bool.false_ne_true⟩

theorem levelFree_refuse (m : Malformed) : LevelFree (refuse m : Eval σ α) :=
  ⟨fun _ => rfl, fun _ _ => rfl, fun _ => Bool.false_ne_true⟩

theorem levelFree_settle (span : Option Span) (r : Except Cause α) :
    LevelFree (settle span r : Eval σ α) := by
  cases r with
  | ok a => exact levelFree_pure a
  | error cause => exact levelFree_fail span cause

theorem get_bind_apply (f : Machine σ → Eval σ α) (m : Machine σ) : (get >>= f) m = f m m := rfl

/-- A computation that a look at the state decides, at whatever level. -/
theorem LevelFree.of_get {k : Machine σ → Eval σ α} (hk : ∀ m, LevelFree (k m))
    (hlevel : ∀ m d, k (m.atDepth d) = k m) : LevelFree (get >>= k) := by
  refine ⟨fun m => (hk m).depth_eq m, fun m d => ?_, fun m => (hk m).not_limited m⟩
  rw [get_bind_apply, get_bind_apply, hlevel]
  exact (hk m).atDepth_apply m d

theorem levelFree_readName (span : Option Span) (name : String) :
    LevelFree (readName span name : Eval σ Value) := by
  refine .of_get (fun m => ?_) fun _ _ => rfl
  split
  · exact levelFree_fail _ _
  · exact levelFree_fail _ _
  · exact levelFree_pure _

theorem levelFree_resolve (registry : Registry σ) (span : Option Span) (module symbol : String) :
    LevelFree (resolve registry span module symbol) := by
  unfold resolve
  split
  · exact levelFree_fail _ _
  · split
    · exact levelFree_fail _ _
    · exact levelFree_pure _

theorem levelFree_callee (registry : Registry σ) (f : Node) : LevelFree (callee registry f) := by
  unfold callee
  split
  · exact levelFree_resolve _ _ _ _
  · next span name =>
    refine .of_get (fun m => ?_) fun _ _ => rfl
    split
    · exact levelFree_fail _ _
    · exact levelFree_fail _ _
    · exact levelFree_pure _
  · exact levelFree_fail _ _

/-- What a call of a native function comes to: its answer, and the state after the call. -/
theorem invoke_apply (call : Node) (n : Native σ) (args : List Value) (m : Machine σ) :
    invoke call n args m =
      match (n.run args m.natives).1.settle n.name with
      | .ok v => .ok v (m.called call n args)
      | .error trouble => .error (.ofTrouble trouble) (m.called call n args) := by
  unfold invoke Machine.called
  rcases n.run args m.natives with ⟨answer, natives⟩
  cases answer with
  | escaped kind text =>
    simp only [Machine.recordAnswer, Machine.record, List.append_assoc, List.singleton_append]
    rfl
  | _ => rfl

theorem state_invoke (call : Node) (n : Native σ) (args : List Value) (m : Machine σ) :
    state (invoke call n args m) = m.called call n args := by
  rw [invoke_apply]
  cases (n.run args m.natives).1.settle n.name <;> rfl

theorem levelFree_invoke (call : Node) (n : Native σ) (args : List Value) :
    LevelFree (invoke call n args) := by
  refine ⟨fun m => ?_, fun m d => ?_, fun m => ?_⟩
  · rw [state_invoke]
    rfl
  · rw [invoke_apply, invoke_apply]
    change (match (n.run args m.natives).1.settle n.name with
      | .ok v => (.ok v ((m.atDepth d).called call n args) : Result σ Value)
      | .error trouble => .error (.ofTrouble trouble) ((m.atDepth d).called call n args)) = _
    cases (n.run args m.natives).1.settle n.name <;> rfl
  · rw [invoke_apply]
    cases (n.run args m.natives).1.settle n.name with
    | ok v => exact id
    | error trouble =>
      rw [Limited, Stop.isLimit_ofTrouble]
      exact Bool.false_ne_true

theorem levelFree_shortcut (span : Option Span) (operator : String) (left : Value) :
    LevelFree (shortcut span operator left : Eval σ (Option Value)) := by
  unfold shortcut
  split
  · exact levelFree_settle _ _
  · exact levelFree_pure _

theorem levelFree_combine (span : Option Span) (operator : String) (left right : Value) :
    LevelFree (combine span operator left right : Eval σ Value) := by
  unfold combine
  split
  · exact levelFree_settle _ _
  · exact levelFree_refuse _

/-! ## Room for some levels -/

/-- With room for `n` more levels, `x` does not stop at a limit and leaves no level open. -/
def Fits (limits : Limits) (n : Nat) (x : Eval σ α) : Prop :=
  ∀ m : Machine σ, limits.Allows (m.depth + n) → ¬ Limited (x m) ∧ (state (x m)).depth = m.depth

namespace Fits

variable {limits : Limits} {n : Nat}

theorem of_levelFree {x : Eval σ α} (h : LevelFree x) : Fits limits n x :=
  fun m _ => ⟨h.not_limited m, h.depth_eq m⟩

theorem mono {x : Eval σ α} {k : Nat} (h : Fits limits k x) (hk : k ≤ n) : Fits limits n x :=
  fun m hm => h m (hm.mono (Nat.add_le_add_left hk _))

theorem bind {x : Eval σ α} {f : α → Eval σ β} (h : Fits limits n x)
    (hf : ∀ a, Fits limits n (f a)) : Fits limits n (x >>= f) := by
  intro m hm
  obtain ⟨hlim, hdepth⟩ := h m hm
  cases hx : x m with
  | error stop m₁ =>
    rw [hx] at hlim hdepth
    rw [bind_error hx]
    exact ⟨hlim, hdepth⟩
  | ok a m₁ =>
    rw [hx] at hdepth
    change m₁.depth = m.depth at hdepth
    rw [bind_ok hx, ← hdepth]
    exact hf a m₁ (by rwa [hdepth])

theorem level {x : Eval σ α} (h : Fits limits n x) (span : Option Span) :
    Fits limits (n + 1) (nested limits span x) := by
  intro m hm
  have hroom : limits.Allows (m.depth + 1) := hm.mono (by omega)
  obtain ⟨hlim, hdepth⟩ := h m.descend (hm.mono (by rw [Machine.descend_depth]; omega))
  rw [nested_of_allows hroom, limited_mapState, state_mapState]
  refine ⟨hlim, ?_⟩
  rw [Machine.ascend_eq, hdepth, Machine.descend_eq]
  simp

end Fits

end Eval

end Scriptlet
