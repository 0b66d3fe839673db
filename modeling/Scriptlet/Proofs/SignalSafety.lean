import Scriptlet.Proofs.Confinement

/-!
# Programs cannot damage signals

Over the standard modules all that a program does to a signal table is to call functions that check their
arguments first and then make one request. None of these requests poisons the table or clears the poison,
and none removes a name.

* `SignalTable.Intact`: what the requests of programs keep.
* `Standard.run_intact`, `Standard.run_of_poisoned`: one call of a standard function.
* `Interpreter.intact_replay`: the table at any point of a run.
* `Interpreter.runProgram_spares_signals`: what this says of a run.
-/

namespace Scriptlet

namespace SignalTable

/-- The second table has the flag of the first one and all of its names, and if it is poisoned also the
same counters. -/
structure Intact (t t' : SignalTable) : Prop where
  poisoned : t'.poisoned = t.poisoned
  keys : t.counts.keys ⊆ t'.counts.keys
  counts : t.poisoned = true → t'.counts = t.counts

theorem Intact.refl (t : SignalTable) : Intact t t := ⟨rfl, List.Subset.refl _, fun _ => rfl⟩

theorem Intact.trans {t t' t'' : SignalTable} (h : Intact t t') (h' : Intact t' t'') :
    Intact t t'' where
  poisoned := h'.poisoned.trans h.poisoned
  keys := List.Subset.trans h.keys h'.keys
  counts hpoisoned := (h'.counts (h.poisoned.trans hpoisoned)).trans (h.counts hpoisoned)

/-- Work under the lock that removes no name. -/
theorem intact_locked {α : Type} {act : Assoc Nat → α × Assoc Nat}
    (h : ∀ counts, counts.keys ⊆ (act counts).2.keys) (t : SignalTable) :
    Intact t (locked act t).2 := by
  cases hpoisoned : t.poisoned with
  | true =>
    rw [locked_of_poisoned hpoisoned]
    exact .refl t
  | false =>
    rw [locked_of_clean hpoisoned]
    refine ⟨rfl, h _, fun htrue => ?_⟩
    rw [hpoisoned] at htrue
    cases htrue

theorem keys_subset_put (counts : Assoc Nat) (name : String) (n : Nat) :
    counts.keys ⊆ (counts.put name n).keys := by
  rw [Assoc.keys_put]
  split_ifs
  · exact List.Subset.refl _
  · exact List.subset_append_left _ _

theorem intact_register (name : String) (t : SignalTable) : Intact t (t.register name).2 :=
  intact_locked (fun counts => keys_subset_put counts name 0) t

theorem intact_emit (name : String) (t : SignalTable) : Intact t (t.emit name).2 :=
  intact_locked (fun counts => keys_subset_put counts name _) t

theorem intact_reset (name : String) (t : SignalTable) : Intact t (t.reset name).2 := by
  refine intact_locked (fun counts => ?_) t
  split_ifs
  · exact keys_subset_put counts name 0
  · exact List.Subset.refl _

/-- The requests of programs, and all others but those about the poison. -/
theorem intact_serve {r : Request} (hinterrupt : r ≠ .interrupt) (hclear : r ≠ .clearPoison)
    (t : SignalTable) : Intact t (serve r t).2 := by
  have hsame {t' : SignalTable} (h : t' = t) : Intact t t' := h ▸ .refl t
  cases r with
  | register name => exact intact_register name t
  | emit name => exact intact_emit name t
  | reset name => exact intact_reset name t
  | count name => exact hsame (t.count_snd name)
  | tracked => exact hsame t.tracked_snd
  | snapshot => exact hsame t.snapshot_snd
  | interrupt => exact absurd rfl hinterrupt
  | clearPoison => exact absurd rfl hclear

end SignalTable

open SignalTable (Intact)

/-- No call makes a request about the poison. -/
theorem Signal.ne_of_request? {symbol : String} {args : List Value} {r : SignalTable.Request}
    (h : request? symbol args = some r) : r ≠ .interrupt ∧ r ≠ .clearPoison := by
  rcases request?_cases h with ⟨name, -, ⟨-, rfl⟩ | ⟨-, rfl⟩ | ⟨-, rfl⟩ | ⟨-, rfl⟩⟩ | ⟨-, -, rfl⟩ <;>
    exact ⟨by simp, by simp⟩

/-! ## One call -/

namespace Standard

variable {σ : Type} {host : Host} {view : View σ SignalTable} {names : List String}

theorem run_intact (hview : view.Lawful) {module symbol : String} {n : Native σ}
    (hn : (chosen host view names).find? module symbol = some n) (args : List Value) (s : σ) :
    Intact (view.get s) (view.get (n.run args s).2) := by
  obtain ⟨-, hget⟩ | ⟨-, hget⟩ := find?_chosen hn
  · rw [System.run_snd hget]
    exact .refl _
  · have hmakes := Signal.makes_of_get? hget
    cases hr : Signal.request? symbol args with
    | none =>
      obtain ⟨cause, -, hrun⟩ := hmakes.run_of_refused hr
      rw [hrun]
      exact .refl _
    | some r =>
      obtain ⟨hinterrupt, hclear⟩ := Signal.ne_of_request? hr
      rw [hmakes.run_of_request hr, hview.get_set]
      exact SignalTable.intact_serve hinterrupt hclear _

/-- Over a poisoned table no signal function returns a value. -/
theorem run_of_poisoned {symbol : String} {n : Native σ}
    (hn : (Signal.module view).get? symbol = some n) {s : σ} (hs : (view.get s).poisoned = true)
    (args : List Value) : ∃ f, (n.run args s).1 = .failure f := by
  have hmakes := Signal.makes_of_get? hn
  cases hr : Signal.request? symbol args with
  | none =>
    obtain ⟨cause, -, hrun⟩ := hmakes.run_of_refused hr
    rw [hrun]
    exact ⟨_, rfl⟩
  | some r =>
    obtain ⟨-, hclear⟩ := Signal.ne_of_request? hr
    rw [hmakes.run_of_request hr, Signal.ask, SignalTable.serve_of_poisoned hs hclear]
    exact ⟨_, rfl⟩

end Standard

/-! ## A run -/

namespace Interpreter

open Eval
open scoped List

variable {σ : Type}

/-- The native function was invoked with the arguments in this state, at some point of a run. -/
def InvokedIn (natives : σ) (trace : List (Event σ)) (n : Native σ) (args : List Value) (s : σ) :
    Prop :=
  ∃ earlier call later, trace = earlier ++ .invoked call n args :: later ∧ s = replay natives earlier

section

variable {i : Interpreter σ} {host : Host} {view : View σ SignalTable} {names : List String}
  (hregistry : i.registry = Standard.chosen host view names) (p : Program)
  (source : Option String) (natives : σ)

include hregistry

/-- The table is intact at any point of a run. -/
theorem intact_replay (hview : view.Lawful) {earlier : List (Event σ)}
    (hearlier : earlier <+: (i.runProgram p source natives).trace) :
    Intact (view.get natives) (view.get (replay natives earlier)) := by
  refine List.foldlRecOn (motive := fun s => Intact (view.get natives) (view.get s)) earlier rerun
    (.refl _) fun s hs e he => hs.trans ?_
  -- Only a call changes the state, and what is called is a standard function.
  cases e with
  | invoked call n args =>
    have hperformed : (call, n, args) ∈ performed (i.runProgram p source natives).trace :=
      List.mem_filterMap.2 ⟨_, hearlier.subset he, rfl⟩
    obtain ⟨path, -, hn⟩ := exists_path hperformed
    rw [hregistry] at hn
    exact Standard.run_intact hview hn args s
  | _ => exact .refl _

/-- Over a poisoned table a run that ends in a value has called functions of `os` only: a signal
function would have ended it. -/
theorem system_of_poisoned (hview : view.Lawful) (hpoisoned : (view.get natives).poisoned = true)
    {v : Value} (hv : (i.runProgram p source natives).result = .ok v) {call : Node} {n : Native σ}
    {args : List Value} (hn : (call, n, args) ∈ performed (i.runProgram p source natives).trace) :
    ∃ symbol, i.registry.find? System.moduleName symbol = some n := by
  -- The poison stays, so the first call of a signal function fails; nothing is asked of how that ends.
  have hkept : Kept (fun n => ∃ module symbol, i.registry.find? module symbol = some n)
      (fun s calls => (view.get s).poisoned = true ∧
        ∀ c ∈ calls, ∃ symbol, i.registry.find? System.moduleName symbol = some c.2.1)
      (fun _ _ => True) := by
    refine ⟨fun _ => trivial, ?_, fun _ _ _ _ _ _ => trivial⟩
    rintro n s calls ⟨module, symbol, hn⟩ ⟨hs, hcalls⟩ call args v hv
    have hstandard := hn
    rw [hregistry] at hstandard
    refine ⟨(Standard.run_intact hview hstandard args s).poisoned.trans hs, ?_⟩
    refine List.forall_mem_append.2 ⟨hcalls, List.forall_mem_singleton.2 ?_⟩
    obtain ⟨rfl, -⟩ | ⟨-, hget⟩ := Standard.find?_chosen hstandard
    · exact ⟨symbol, hn⟩
    · obtain ⟨f, hf⟩ := Standard.run_of_poisoned hget hs args
      have hinvoke : (n.invoke args s).1 = .error (.failure f) := by
        change (n.run args s).1.settle n.name = _
        rw [hf]
        rfl
      rw [hinvoke] at hv
      cases hv
  have hrun := (runProgram_upholds hkept i p source natives ⟨hpoisoned, List.forall_mem_nil _⟩
    fun module symbol _ n hn => ⟨module, symbol, hn⟩).2 v hv
  exact hrun.2 _ hn

end

/-- No program over the standard modules damages a signal table, however its run ends. The table is as
poisoned as before, and all names are still tracked. A call of a signal function with the wrong number or
kinds of arguments fails and changes nothing. If the table is poisoned, its counters stay as they are and
no signal function returns a value, so that a run that ends in a value has called none of them. -/
theorem runProgram_spares_signals (i : Interpreter σ) (host : Host) (view : View σ SignalTable)
    (names : List String) (hview : view.Lawful)
    (hregistry : i.registry = Standard.chosen host view names) (p : Program)
    (source : Option String) (natives : σ) :
    let o := i.runProgram p source natives
    let t := view.get natives
    let t' := view.get o.natives
    o.natives = replay natives o.trace ∧
    t'.poisoned = t.poisoned ∧
    (∀ name ∈ t.counts.keys, name ∈ t'.counts.keys) ∧
    (∀ symbol n, i.registry.find? Signal.moduleName symbol = some n →
      ∀ args, Signal.request? symbol args = none → ∀ s,
      ∃ cause, cause.code ∈ ["E403", "E404"] ∧ n.run args s = (.failure (.ofCause cause), s)) ∧
    (t.poisoned = true →
      t'.counts = t.counts ∧
      (∀ symbol n, i.registry.find? Signal.moduleName symbol = some n →
        ∀ args s, InvokedIn natives o.trace n args s → ∀ v, (n.run args s).1 ≠ .value v) ∧
      ∀ v, o.result = .ok v → ∀ call n args, (call, n, args) ∈ performed o.trace →
        ∃ symbol, i.registry.find? System.moduleName symbol = some n) := by
  intro o t t'
  have hreplay : o.natives = replay natives o.trace := runProgram_replay i p source natives
  have hintact : Intact t t' := by
    unfold t'
    rw [hreplay]
    exact intact_replay hregistry p source natives hview (List.prefix_refl _)
  have hsignal {symbol : String} {n : Native σ}
      (hn : i.registry.find? Signal.moduleName symbol = some n) :
      (Signal.module view).get? symbol = some n := by
    rw [hregistry] at hn
    obtain ⟨hmodule, -⟩ | ⟨-, hget⟩ := Standard.find?_chosen hn
    · exact absurd hmodule (by decide)
    · exact hget
  refine ⟨hreplay, hintact.poisoned, fun name hname => hintact.keys hname, ?_, fun hpoisoned =>
    ⟨hintact.counts hpoisoned, ?_, ?_⟩⟩
  · intro symbol n hn args hr s
    obtain ⟨cause, hcode, hrun⟩ := (Signal.makes_of_get? (hsignal hn)).run_of_refused hr
    exact ⟨cause, hcode, hrun s⟩
  · rintro symbol n hn args _ ⟨earlier, call, later, htrace, rfl⟩ v hv
    have hearlier : earlier <+: o.trace := htrace ▸ List.prefix_append _ _
    have hstate := intact_replay hregistry p source natives hview hearlier
    obtain ⟨f, hf⟩ := Standard.run_of_poisoned (hsignal hn) (hstate.poisoned.trans hpoisoned) args
    rw [hf] at hv
    cases hv
  · intro v hv call n args hn
    exact system_of_poisoned hregistry p source natives hview hpoisoned hv hn

/-- A program that counts an event on a poisoned table, and one that does not. -/
theorem runProgram_spares_signals_poisoned :
    let host : Host := {}
    let i : Interpreter SignalTable := ⟨Standard.registry host (.whole _), ⟨9, 1000⟩, 0, []⟩
    let pid : Node := .expression none (.call none (.path none "os" "pid") [])
    let emit : Node :=
      .expression none (.call none (.path none "signal" "emit") [.literal none (.str "a")])
    let t : SignalTable := ⟨[("a", 2)], true⟩
    let run (es : List Node) := i.runProgram ⟨none, es⟩ none t
    (run [pid, emit]).natives.poisoned = true ∧ (run [pid, emit]).natives.counts = t.counts ∧
    (∃ n, i.registry.find? Signal.moduleName "emit" = some n ∧
      InvokedIn t (run [pid, emit]).trace n [.str "a"] t ∧
      (∀ v, (n.run [.str "a"] t).1 ≠ .value v) ∧
      Signal.request? "emit" [.int 1] = none ∧
      ∃ cause, cause.code ∈ ["E403", "E404"] ∧
        n.run [.int 1] t = (.failure (.ofCause cause), t)) ∧
    (run [pid]).result = .ok (.int 1) ∧
    ∃ call n args, (call, n, args) ∈ performed (run [pid]).trace ∧
      ∃ symbol, i.registry.find? System.moduleName symbol = some n := by
  intro host i pid emit t run
  obtain ⟨-, hflag, -, hrefused, hpoisoned⟩ := runProgram_spares_signals i host (.whole _)
    Standard.names (View.lawful_whole _) rfl ⟨none, [pid, emit]⟩ none t
  obtain ⟨hcounts, hvalues, -⟩ := hpoisoned rfl
  obtain ⟨-, -, -, -, hpid⟩ := runProgram_spares_signals i host (.whole _)
    Standard.names (View.lawful_whole _) rfl ⟨none, [pid]⟩ none t
  obtain ⟨-, -, hsystem⟩ := hpid rfl
  have hinvoked : InvokedIn t (run [pid, emit]).trace _ [.str "a"] t :=
    ⟨(run [pid, emit]).trace.take 2, _, [], rfl, rfl⟩
  have hmem : ∃ call n args, (call, n, args) ∈ performed (run [pid]).trace :=
    ⟨_, _, _, List.mem_cons_self⟩
  obtain ⟨call, n, args, hn⟩ := hmem
  exact ⟨hflag, hcounts, ⟨_, rfl, hinvoked, hvalues "emit" _ rfl _ _ hinvoked, rfl,
    hrefused "emit" _ rfl _ rfl t⟩, rfl, call, n, args, hn, hsystem _ rfl call n args hn⟩

end Interpreter

end Scriptlet
