import Scriptlet.Proofs.Focus

/-!
# Several registries

A host can have several registries of standard modules. Some of them share a signal table, and some have one
of their own. Programs that are run over registries with different tables do not affect each other, and
registries that share a table act as one, whatever else is run in between.

* `Standard.Library`: a registry, by its modules and the table behind its signals.
* `Standard.runJobs`: what programs come to that are run one after another over such registries.
* `Standard.runJobs_filter`: what concerns one table is what comes of running just the programs over it.
-/

namespace Scriptlet.Standard

variable {ι σ : Type}

/-! ## Programs over registries -/

/-- A registry with some of the standard modules. Registries with the same `table` share it. -/
structure Library (ι : Type) where
  table : ι
  modules : List String
  known : unknown modules = []

/-- The registry itself, on a state in which `view` shows the table. -/
def Library.registry (l : Library ι) (host : Host) (view : View σ SignalTable) : Registry σ :=
  chosen host view l.modules

/-- All modules of a library can be installed. -/
theorem Library.install_eq (l : Library ι) (host : Host) (view : View σ SignalTable) :
    install host view l.modules .empty = .ok (l.registry host view) := by
  unfold install
  rw [l.known]
  rfl

/-- A program that is run over a registry, on a host as it is at that time. -/
structure Job (ι : Type) where
  library : Library ι
  host : Host
  limits : Limits
  program : Program
  source : Option String

/-- Runs the program of a job. -/
def Job.run (job : Job ι) (view : View σ SignalTable) (s : σ) : Outcome σ :=
  Interpreter.runProgram { registry := job.library.registry job.host view, limits := job.limits }
    job.program job.source s

/-- Runs jobs one after another, on a state in which `view` shows their tables: every job with the value or
the error of its run, and the state after them. -/
def runJobs (view : ι → View σ SignalTable) (s : σ) :
    List (Job ι) → List (Job ι × Except RunError Value) × σ
  | [] => ([], s)
  | job :: jobs =>
    let o := job.run (view job.library.table) s
    let (log, s') := runJobs view o.natives jobs
    ((job, o.value job.program.span) :: log, s')

/-! ## One table of several -/

variable [DecidableEq ι]

/-- A run over one of several tables ends as it would if there were no others, and leaves them alone. -/
theorem Job.run_entry (job : Job ι) (k : ι) (w : ι → SignalTable) :
    let o := job.run (.entry k) w
    let o' := job.run (.whole SignalTable) (w k)
    o.value job.program.span = o'.value job.program.span ∧
      o.natives = Function.update w k o'.natives :=
  Interpreter.runProgram_focuses (View.separates_entry k)
    (chosen_matches (View.separates_entry k) job.host job.library.modules) job.limits job.program
    job.source w

/-- Jobs over registries with any number of tables, in any order: the results of those over one table, and
that table at the end, are what comes of running just these jobs, in the same order, on the table alone. -/
theorem runJobs_filter (w : ι → SignalTable) (jobs : List (Job ι)) (k : ι) :
    let all := runJobs View.entry w jobs
    let alone := runJobs (fun _ => .whole SignalTable) (w k)
      (jobs.filter fun job => job.library.table = k)
    (all.1.filter fun entry => entry.1.library.table = k) = alone.1 ∧ all.2 k = alone.2 := by
  induction jobs generalizing w with
  | nil => exact ⟨rfl, rfl⟩
  | cons job jobs ih =>
    obtain ⟨hvalue, hnatives⟩ := job.run_entry job.library.table w
    have hrest := ih (job.run (.entry job.library.table) w).natives
    rw [hnatives] at hrest
    by_cases hk : job.library.table = k
    · -- The job is one of those that are run alone, from the same table.
      subst hk
      rw [Function.update_self] at hrest
      simp only [runJobs, List.filter_cons, decide_true, if_true, hnatives, hvalue]
      exact ⟨congrArg _ hrest.1, hrest.2⟩
    · -- The table stays as it is, and the job is not among those that are run alone.
      rw [Function.update_of_ne (Ne.symm hk)] at hrest
      simp only [runJobs, List.filter_cons, hk, decide_false, Bool.false_eq_true, if_false, hnatives]
      exact hrest

/-- Two registries that share a table count on, and one with another table starts at one. -/
example :
    let emit : Program :=
      ⟨none, [.expression none (.call none (.path none "signal" "emit") [.literal none (.str "a")])]⟩
    let job (table : Nat) (modules : List String) (h : unknown modules = []) : Job Nat :=
      ⟨⟨table, modules, h⟩, {}, ⟨9, 1000⟩, emit, none⟩
    let done := runJobs View.entry (fun _ => {})
      [job 0 names rfl, job 1 names rfl, job 0 ["signal"] rfl]
    done.1.map (·.2) = [.ok (.int 1), .ok (.int 1), .ok (.int 2)] := rfl

end Scriptlet.Standard
