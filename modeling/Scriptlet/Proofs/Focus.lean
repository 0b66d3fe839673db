import Mathlib.Logic.Function.Basic
import Scriptlet.Eval.Interpreter
import Scriptlet.Proofs.Correspondence
import Scriptlet.Proofs.StandardNatives

/-!
# Evaluation on a part of the state

The state of the native functions may have several parts. Functions that see one of them only do there what
they would do if that part were all there is, and so does every run that calls no others.

* `View.Separates`: a view of a part that can be changed by itself; `View.entry` is one.
* `Native.Lifts view n n'`: `n` does on the part that `view` shows what `n'` does on a whole state.
* `Eval.Focuses view x y`: `x` does on the part what `y` does on a whole state.
* `Interpreter.runProgram_focuses`: what this says of runs.
* `Standard.chosen_matches`: standard registries on a part, and on a whole state.
-/

namespace Scriptlet

/-! ## Views of parts -/

/-- A view of a part that can be changed by itself: of two writes the later counts. -/
structure View.Separates {σ τ : Type} (view : View σ τ) : Prop extends view.Lawful where
  set_set : ∀ a b s, view.set a (view.set b s) = view.set a s

/-- One entry of a family. -/
def View.entry {ι α : Type} [DecidableEq ι] (k : ι) : View (ι → α) α :=
  ⟨fun w => w k, fun a w => Function.update w k a⟩

theorem View.separates_entry {ι α : Type} [DecidableEq ι] (k : ι) :
    (View.entry k : View (ι → α) α).Separates where
  get_set a w := by
    show Function.update w k a k = a
    exact Function.update_self k a w
  set_get w := Function.update_eq_self k w
  set_set a b w := by
    show Function.update (Function.update w k b) k a = Function.update w k a
    exact Function.update_idem b a w

variable {σ τ : Type}

/-- On the part that `view` shows, `n` does what `n'` does on a whole state, and it touches nothing else. -/
structure Native.Lifts (view : View σ τ) (n : Native σ) (n' : Native τ) : Prop where
  name : n.name = n'.name
  run : ∀ args s, n.run args s =
    ((n'.run args (view.get s)).1, view.set (n'.run args (view.get s)).2 s)

/-! ## Environments -/

/-- The same value, or related native functions. -/
inductive Binding.Matches (P : Native σ → Native τ → Prop) : Binding σ → Binding τ → Prop
  | value (v : Value) : Matches P (.value v) (.value v)
  | native {n : Native σ} {n' : Native τ} : P n n' → Matches P (.native n) (.native n')

namespace Environment

variable {P : Native σ → Native τ → Prop} {e : Environment σ} {e' : Environment τ}

/-- Environments with the same names in the same scopes, for the same values or related functions. -/
def Matches (P : Native σ → Native τ → Prop) (e : Environment σ) (e' : Environment τ) : Prop :=
  List.Forall₂ (Assoc.Matches (Binding.Matches P)) (e.inner :: e.outer) (e'.inner :: e'.outer)

theorem matches_empty : Matches P ({} : Environment σ) ({} : Environment τ) := .cons .nil .nil

theorem Matches.push (h : Matches P e e') : Matches P e.push e'.push := .cons .nil h

theorem Matches.pop (h : Matches P e e') : Matches P e.pop e'.pop := by
  obtain ⟨inner, outer⟩ := e
  obtain ⟨inner', outer'⟩ := e'
  cases h with
  | cons hinner houter =>
    cases houter with
    | nil => exact .cons hinner .nil
    | cons hscope hscopes => exact .cons hscope hscopes

theorem Matches.bind (h : Matches P e e') (name : String) {b : Binding σ} {b' : Binding τ}
    (hb : b.Matches P b') : Matches P (e.bind name b) (e'.bind name b') := by
  cases h with
  | cons hinner houter => exact .cons (hinner.put name hb) houter

theorem Matches.lookup (h : Matches P e e') (name : String) :
    Option.Rel (Binding.Matches P) (e.lookup name) (e'.lookup name) := by
  unfold Environment.lookup
  unfold Matches at h
  generalize e.inner :: e.outer = scopes at h
  generalize e'.inner :: e'.outer = scopes' at h
  induction h with
  | nil => exact .none
  | @cons scope scope' scopes scopes' hscope _ ih =>
    unfold lookupIn
    have hfound := hscope.get? name
    generalize scope.get? name = found at hfound
    generalize scope'.get? name = found' at hfound
    cases hfound with
    | none => exact ih
    | some hb => exact .some hb

end Environment

/-! ## Computations -/

namespace Eval

variable {α β : Type} {view : View σ τ}

open Result

/-- The states of two computations, of which the second one has for the state of its native functions what
`view` shows in the first one. Everything else there is as in `base`. -/
structure Mirrors (view : View σ τ) (base : σ) (m : Machine σ) (m' : Machine τ) : Prop where
  env : m.env.Matches (Native.Lifts view) m'.env
  natives : m.natives = view.set m'.natives base
  depth : m.depth = m'.depth
  lines : m.lines = m'.lines

/-- The same value or the same stop, in states that mirror each other. -/
inductive Mirrored (view : View σ τ) (base : σ) : Result σ α → Result τ α → Prop
  | ok (a : α) {m : Machine σ} {m' : Machine τ} : Mirrors view base m m' →
      Mirrored view base (.ok a m) (.ok a m')
  | error (stop : Stop) {m : Machine σ} {m' : Machine τ} : Mirrors view base m m' →
      Mirrored view base (.error stop m) (.error stop m')

/-- On the part that `view` shows, `x` does what `y` does on a whole state. -/
def Focuses (view : View σ τ) (x : Eval σ α) (y : Eval τ α) : Prop :=
  ∀ base m m', Mirrors view base m m' → Mirrored view base (x m) (y m')

/-- A change of both states. -/
theorem Mirrored.mapState {base : σ} {r : Result σ α} {r' : Result τ α}
    (h : Mirrored view base r r') {f : Machine σ → Machine σ} {g : Machine τ → Machine τ}
    (hfg : ∀ m m', Mirrors view base m m' → Mirrors view base (f m) (g m')) :
    Mirrored view base (mapState f r) (mapState g r') := by
  cases h with
  | ok a hm => exact .ok a (hfg _ _ hm)
  | error stop hm => exact .error stop (hfg _ _ hm)

theorem focuses_pure (a : α) : Focuses view (pure a) (pure a) := fun _ _ _ hm => .ok a hm

theorem focuses_refuse (e : Malformed) : Focuses (α := α) view (refuse e) (refuse e) :=
  fun _ _ _ hm => .error _ hm

theorem focuses_fail (span : Option Span) (cause : Cause) :
    Focuses (α := α) view (fail span cause) (fail span cause) := by
  intro base m m' hm
  unfold fail
  rw [hm.lines]
  exact .error _ hm

theorem focuses_readName (span : Option Span) (name : String) :
    Focuses view (readName span name) (readName span name) := by
  intro base m m' hm
  have hfound := hm.env.lookup name
  rw [readName_apply, readName_apply, hm.lines]
  generalize m.env.lookup name = found at hfound
  generalize m'.env.lookup name = found' at hfound
  cases hfound with
  | none => exact .error _ hm
  | some hb =>
    cases hb with
    | value v => exact .ok v hm
    | native hn =>
      dsimp only
      rw [hn.name]
      exact .error _ hm

theorem focuses_bindName (name : String) {b : Binding σ} {b' : Binding τ}
    (hb : b.Matches (Native.Lifts view) b') : Focuses view (bindName name b) (bindName name b') :=
  fun _ _ _ hm => .ok () ⟨hm.env.bind name hb, hm.natives, hm.depth, hm.lines⟩

namespace Focuses

theorem bind {x : Eval σ α} {y : Eval τ α} {f : α → Eval σ β} {g : α → Eval τ β}
    (h : Focuses view x y) (hf : ∀ a, Focuses view (f a) (g a)) :
    Focuses view (x >>= f) (y >>= g) := by
  intro base m m' hm
  have hxy := h base m m' hm
  generalize hx : x m = r at hxy
  generalize hy : y m' = r' at hxy
  cases hxy with
  | ok a hm₁ =>
    rw [bind_ok hx, bind_ok hy]
    exact hf a base _ _ hm₁
  | error stop hm₁ =>
    rw [bind_error hx, bind_error hy]
    exact .error stop hm₁

theorem nested {x : Eval σ α} {y : Eval τ α} (h : Focuses view x y) (limits : Limits)
    (span : Option Span) : Focuses view (nested limits span x) (nested limits span y) := by
  intro base m m' hm
  have hdown : Mirrors view base m.descend m'.descend :=
    ⟨hm.env, hm.natives, congrArg (· + 1) hm.depth, hm.lines⟩
  unfold Eval.nested
  rw [hm.depth]
  split_ifs
  · exact .error _ hdown
  · exact .error _ hdown
  · rw [andThen_apply, andThen_apply]
    refine (h base _ _ hdown).mapState fun n n' hn => ?_
    exact ⟨hn.env, hn.natives, congrArg (· - 1) hn.depth, hn.lines⟩

theorem inScope {x : Eval σ α} {y : Eval τ α} (h : Focuses view x y) :
    Focuses view (inScope x) (inScope y) := by
  intro base m m' hm
  have henter : Mirrors view base m.enterScope m'.enterScope :=
    ⟨hm.env.push, hm.natives, hm.depth, hm.lines⟩
  unfold Eval.inScope
  rw [andThen_apply, andThen_apply]
  refine (h base _ _ henter).mapState fun n n' hn => ?_
  exact ⟨hn.env.pop, hn.natives, hn.depth, hn.lines⟩

/-- A path leads to related functions of the two registries, or to none in both. -/
theorem resolve_bind {registry : Registry σ} {registry' : Registry τ}
    (hregistry : Assoc.Matches (Assoc.Matches (Native.Lifts view)) registry registry')
    (span : Option Span) (module symbol : String) {k : Native σ → Eval σ Value}
    {k' : Native τ → Eval τ Value} (hk : ∀ n n', n.Lifts view n' → Focuses view (k n) (k' n')) :
    Focuses view (resolve registry span module symbol >>= k)
      (resolve registry' span module symbol >>= k') := by
  have htable := hregistry.get? module
  unfold resolve
  generalize registry.get? module = found at htable
  generalize registry'.get? module = found' at htable
  cases htable with
  | none => exact focuses_fail span _
  | @some table table' htable =>
    have hnative := htable.get? symbol
    dsimp only
    generalize table.get? symbol = found at hnative
    generalize table'.get? symbol = found' at hnative
    cases hnative with
    | none => exact focuses_fail span _
    | some hn => exact hk _ _ hn

/-- A name stands for related functions, or for the same value, or for nothing. -/
theorem callee_bind {registry : Registry σ} {registry' : Registry τ} (span : Option Span)
    (name : String) {k : Native σ → Eval σ Value} {k' : Native τ → Eval τ Value}
    (hk : ∀ n n', n.Lifts view n' → Focuses view (k n) (k' n')) :
    Focuses view (callee registry (.name span name) >>= k)
      (callee registry' (.name span name) >>= k') := by
  intro base m m' hm
  have hfound := hm.env.lookup name
  have hcallee := callee_name_apply registry span name m
  have hcallee' := callee_name_apply registry' span name m'
  rw [hm.lines] at hcallee
  generalize m.env.lookup name = found at hfound hcallee
  generalize m'.env.lookup name = found' at hfound hcallee'
  cases hfound with
  | none =>
    rw [bind_error hcallee, bind_error hcallee']
    exact .error _ hm
  | some hb =>
    cases hb with
    | value v =>
      rw [bind_error hcallee, bind_error hcallee']
      exact .error _ hm
    | native hn =>
      rw [bind_ok hcallee, bind_ok hcallee']
      exact hk _ _ hn base m m' hm

end Focuses

theorem focuses_invoke (hview : view.Separates) (call : Node) (args : List Value) {n : Native σ}
    {n' : Native τ} (hn : n.Lifts view n') :
    Focuses view (invoke call n args) (invoke call n' args) := by
  intro base m m' hm
  have hshown : view.get m.natives = m'.natives := by
    rw [hm.natives]
    exact hview.get_set _ _
  have hwritten : ∀ t, view.set t m.natives = view.set t base := by
    intro t
    rw [hm.natives]
    exact hview.set_set _ _ _
  have hrun := hn.run args m.natives
  rw [hshown, hwritten] at hrun
  have hcalled : Mirrors view base (m.called call n args) (m'.called call n' args) :=
    ⟨hm.env, congrArg Prod.snd hrun, hm.depth, hm.lines⟩
  rw [invoke_apply, invoke_apply, hrun, hn.name]
  cases (n'.run args m'.natives).1.settle n'.name with
  | ok v => exact .ok v hcalled
  | error trouble => exact .error _ hcalled

/-- Evaluation over functions that see a part of the state is evaluation on that part. -/
theorem correspondence_focuses (hview : view.Separates) {registry : Registry σ}
    {registry' : Registry τ}
    (hregistry : Assoc.Matches (Assoc.Matches (Native.Lifts view)) registry registry')
    (limits : Limits) :
    Correspondence ⟨registry, limits⟩ ⟨registry', limits⟩ {} Grading.trivial (Native.Lifts view)
      (fun _ _ => Focuses view) where
  pure := focuses_pure
  decided _ _ v := focuses_pure v
  fail _ span cause _ := focuses_fail span cause
  refuse _ _ _ e := focuses_refuse e
  misplaced _ _ span e := (focuses_refuse e).nested limits span
  readName := focuses_readName
  bind := Focuses.bind
  nested h span := h.nested limits span
  inScope := Focuses.inScope
  bindValue name v := focuses_bindName name (.value v)
  bindNative name _ _ hn := focuses_bindName name (.native hn)
  resolve span module symbol _ hk := Focuses.resolve_bind hregistry span module symbol hk
  lookUp span name hk := Focuses.callee_bind span name hk
  invoke call args _ _ hn := focuses_invoke hview call args hn

end Eval

/-! ## Runs -/

open Eval in
/-- A run over functions that see a part of the state ends as the run on that part alone, and the state of
all other parts is left as it is. -/
theorem Interpreter.runProgram_focuses {view : View σ τ} (hview : view.Separates)
    {registry : Registry σ} {registry' : Registry τ}
    (hregistry : Assoc.Matches (Assoc.Matches (Native.Lifts view)) registry registry')
    (limits : Limits) (p : Program) (source : Option String) (s : σ) :
    let o := ({ registry, limits } : Interpreter σ).runProgram p source s
    let o' := ({ registry := registry', limits } : Interpreter τ).runProgram p source (view.get s)
    o.value p.span = o'.value p.span ∧ o.natives = view.set o'.natives s := by
  intro o o'
  have hfocuses := (correspondence_focuses hview hregistry limits).executeAll p.statements .unit
    fun e _ => .nothing e
  have hstart : Mirrors view s (start source {} s [.started p.statements.length])
      (start source {} (view.get s) [.started p.statements.length]) :=
    ⟨Environment.matches_empty, (hview.set_get s).symm, rfl, rfl⟩
  have hmirrored := hfocuses s _ _ hstart
  unfold o o' runProgram
  generalize hr : executeAll (Setting.mk registry limits) _ _ _ = r at hmirrored
  generalize hr' : executeAll (Setting.mk registry' limits) _ _ _ = r' at hmirrored
  simp only [Interpreter.setting, hr, hr']
  cases hmirrored with
  | ok v hm => exact ⟨rfl, hm.natives⟩
  | error stop hm =>
    refine ⟨?_, hm.natives⟩
    simp only [Outcome.value, outcome, hm.lines]

/-! ## Standard registries -/

/-- A function that reads the host touches no part of the state. -/
theorem System.lifts_native {view : View σ τ} (hview : view.Separates) (symbol doc : String)
    (body : String → List Value → Native.Answer) :
    (native symbol doc body : String × Native σ).2.Lifts view (native symbol doc body).2 :=
  ⟨rfl, fun _ s => by simp only [native, hview.set_get]⟩

theorem System.module_matches {view : View σ τ} (hview : view.Separates) (host : Host) :
    Assoc.Matches (Native.Lifts view) (module host) (module host) := by
  have hlifts (symbol doc : String) (body : String → List Value → Native.Answer) :
      (native symbol doc body : String × Native σ).1 = (native symbol doc body : String × Native τ).1 ∧
        (native symbol doc body).2.Lifts view (native symbol doc body).2 :=
    ⟨rfl, lifts_native hview symbol doc body⟩
  unfold module
  exact .cons (hlifts _ _ _) (.cons (hlifts _ _ _) (.cons (hlifts _ _ _) (.cons (hlifts _ _ _)
    (.cons (hlifts _ _ _) (.cons (hlifts _ _ _) .nil)))))

/-- A signal function on a table that is part of the state. -/
theorem Signal.lifts_native {view : View σ SignalTable} (hview : view.Separates) (symbol : String)
    (plan : String → List Value → Except Cause Act) :
    (native view symbol plan).2.Lifts view (native (.whole SignalTable) symbol plan).2 := by
  refine ⟨rfl, fun args s => ?_⟩
  simp only [native]
  cases plan (Node.pathText moduleName symbol) args with
  | error cause => simp only [hview.set_get]
  | ok act => rfl

theorem Signal.module_matches {view : View σ SignalTable} (hview : view.Separates) :
    Assoc.Matches (Native.Lifts view) (module view) (module (.whole SignalTable)) := by
  have hlifts (symbol : String) (plan : String → List Value → Except Cause Act) :
      (native view symbol plan).1 = (native (.whole SignalTable) symbol plan).1 ∧
        (native view symbol plan).2.Lifts view (native (.whole SignalTable) symbol plan).2 :=
    ⟨rfl, lifts_native hview symbol plan⟩
  unfold module
  exact .cons (hlifts _ _) (.cons (hlifts _ _) (.cons (hlifts _ _) (.cons (hlifts _ _)
    (.cons (hlifts _ _) .nil))))

/-- A standard registry whose signal table is part of the state does on that part what a standard registry
with the same modules does on a table alone. -/
theorem Standard.chosen_matches {view : View σ SignalTable} (hview : view.Separates) (host : Host)
    (names : List String) :
    Assoc.Matches (Assoc.Matches (Native.Lifts view)) (chosen host view names)
      (chosen host (.whole SignalTable) names) := by
  have hsystem := System.module_matches hview host
  have hsignal := Signal.module_matches hview
  have hempty : Assoc.Matches (Assoc.Matches (Native.Lifts view)) (Registry.empty (σ := σ))
      (Registry.empty (σ := SignalTable)) := .nil
  unfold chosen add
  dsimp only
  split_ifs
  · exact (hempty.put _ hsystem).put _ hsignal
  · exact hempty.put _ hsignal
  · exact hempty.put _ hsystem
  · exact hempty

end Scriptlet
