import Mathlib.Data.List.Dedup
import Mathlib.Logic.Function.Basic
import Scriptlet.Native.Signal

/-!
# A signal table and its log

What a signal table holds can be read off the log of all requests it got: the count of a name is the
number of events since the name was last started again, the tracked names are those that were registered
or counted, and the table is poisoned if there was a failure under the lock since the poison was last
cleared. Requests that a poisoned table refused do not count.

* `SignalTable.serve`: all operations of a table as one function.
* `Log.names`, `Log.count`, `Log.isPoisoned`: what a log says; `Log.table` is the table it stands for.
* `serve_table`: a request to that table leads to the table of the longer log.
* `run_refines_log`: what this says of all requests to a new table.
-/

namespace Scriptlet

/-! ## Maps given by a function -/

namespace Assoc

variable {α : Type}

/-- The map that gives each of some names its value. -/
def tabulate (names : List String) (f : String → α) : Assoc α := names.map fun n => (n, f n)

@[simp] theorem keys_tabulate (names : List String) (f : String → α) :
    (tabulate names f).keys = names := by
  rw [keys, tabulate, List.map_map]
  exact List.map_id names

@[simp] theorem length_tabulate (names : List String) (f : String → α) :
    (tabulate names f).length = names.length :=
  List.length_map _

theorem get?_tabulate (names : List String) (f : String → α) (name : String) :
    (tabulate names f).get? name = if name ∈ names then some (f name) else none := by
  induction names with
  | nil => rfl
  | cons n names ih =>
    rw [tabulate, List.map_cons, get?_cons]
    by_cases h : name = n
    · simp [h]
    · have hmem : name ∈ n :: names ↔ name ∈ names := by simp [h]
      rw [if_neg h, if_congr hmem rfl rfl]
      exact ih

/-- `put` changes the function at one name, which comes last if it is new. -/
theorem put_tabulate {names : List String} (hnodup : names.Nodup) (f : String → α) (name : String)
    (a : α) :
    (tabulate names f).put name a =
      tabulate (if name ∈ names then names else names ++ [name]) (Function.update f name a) := by
  induction names with
  | nil => simp [tabulate, put]
  | cons n names ih =>
    obtain ⟨hn, hnodup⟩ := List.nodup_cons.1 hnodup
    rw [tabulate, List.map_cons, put]
    by_cases h : n = name
    · subst h
      have hrest : names.map (fun k => (k, f k)) =
          names.map fun k => (k, Function.update f n a k) := by
        refine List.map_congr_left fun k hk => ?_
        have hkn : k ≠ n := fun heq => hn (heq ▸ hk)
        rw [Function.update_of_ne hkn]
      simp [tabulate, hrest]
    · have hcons : (if name ∈ n :: names then n :: names else n :: names ++ [name]) =
          n :: if name ∈ names then names else names ++ [name] := by
        by_cases hname : name ∈ names <;> simp [hname, Ne.symm h]
      rw [if_neg h, hcons]
      change (n, f n) :: (tabulate names f).put name a = _
      rw [ih hnodup, tabulate, tabulate, List.map_cons, Function.update_of_ne h]

end Assoc

namespace SignalTable

/-! ## Requests -/

/-- What can be asked of a table. A failure while the table is locked is a request, too. -/
inductive Request where
  | register (name : String)
  | emit (name : String)
  | count (name : String)
  | tracked
  | reset (name : String)
  | snapshot
  | interrupt
  | clearPoison
  deriving DecidableEq

/-- What a table answers to a request that it serves. -/
inductive Response where
  | flag (b : Bool)
  | number (n : Nat)
  | counters (counts : Assoc Nat)
  | done
  deriving DecidableEq

/-- The answer of an operation as a response. -/
def respond {α : Type} (toResponse : α → Response) (r : Except Cause α × SignalTable) :
    Except Cause Response × SignalTable :=
  (r.1.map toResponse, r.2)

/-- Serves a request. -/
def serve : Request → SignalTable → Except Cause Response × SignalTable
  | .register name, t => respond .flag (t.register name)
  | .emit name, t => respond .number (t.emit name)
  | .count name, t => respond .number (t.count name)
  | .tracked, t => respond .number t.tracked
  | .reset name, t => respond .flag (t.reset name)
  | .snapshot, t => respond .counters t.snapshot
  | .interrupt, t => respond (fun _ => .done) t.interrupt
  | .clearPoison, t => (.ok .done, t.clearPoison)

theorem locked_of_poisoned {α : Type} {t : SignalTable} (h : t.poisoned = true)
    (act : Assoc Nat → α × Assoc Nat) : locked act t = (.error (.lockPoisoned resourceName), t) :=
  if_pos h

theorem locked_of_clean {α : Type} {t : SignalTable} (h : t.poisoned = false)
    (act : Assoc Nat → α × Assoc Nat) :
    locked act t = (.ok (act t.counts).1, { t with counts := (act t.counts).2 }) :=
  if_neg (by rw [h]; exact Bool.false_ne_true)

/-- What only looks at the counters leaves the table as it is. -/
theorem locked_snd_of_reads {α : Type} {act : Assoc Nat → α × Assoc Nat}
    (h : ∀ counts, (act counts).2 = counts) (t : SignalTable) : (locked act t).2 = t := by
  cases hpoisoned : t.poisoned with
  | false => rw [locked_of_clean hpoisoned, h]
  | true => rw [locked_of_poisoned hpoisoned]

theorem count_snd (name : String) (t : SignalTable) : (t.count name).2 = t :=
  locked_snd_of_reads (fun _ => rfl) t

theorem tracked_snd (t : SignalTable) : t.tracked.2 = t := locked_snd_of_reads (fun _ => rfl) t

theorem snapshot_snd (t : SignalTable) : t.snapshot.2 = t := locked_snd_of_reads (fun _ => rfl) t

/-- A poisoned table refuses everything but to be cleared. -/
theorem serve_of_poisoned {t : SignalTable} (h : t.poisoned = true) {r : Request}
    (hr : r ≠ .clearPoison) : serve r t = (.error (.lockPoisoned resourceName), t) := by
  have hlocked {α : Type} (toResponse : α → Response) (act : Assoc Nat → α × Assoc Nat) :
      respond toResponse (locked act t) = (.error (.lockPoisoned resourceName), t) := by
    rw [locked_of_poisoned h]
    rfl
  cases r with
  | interrupt =>
    rw [serve, SignalTable.interrupt, if_pos h]
    rfl
  | clearPoison => exact absurd rfl hr
  | _ => exact hlocked _ _

/-! ## Logs -/

/-- A request with its outcome. -/
structure Entry where
  request : Request
  outcome : Except Cause Response

namespace Entry

/-- Was the request served? -/
def isServed (e : Entry) : Bool := e.outcome.isOk

@[simp] theorem isServed_ok (r : Request) (response : Response) :
    isServed ⟨r, .ok response⟩ = true := rfl

@[simp] theorem isServed_error (r : Request) (cause : Cause) :
    isServed ⟨r, .error cause⟩ = false := rfl

/-- The name that a served request makes tracked, if it was not. -/
def tracks? (e : Entry) : Option String :=
  match e.request with
  | .register name | .emit name => if e.isServed then some name else none
  | _ => none

/-- Does the count of a name start again with this entry? -/
def restarts (name : String) (e : Entry) : Bool :=
  e.isServed && (e.request = .register name ∨ e.request = .reset name)

/-- Does this entry count an event of a name? -/
def counts (name : String) (e : Entry) : Bool := e.isServed && e.request = .emit name

/-- Is this a failure under the lock? -/
def isFailure (e : Entry) : Bool := e.isServed && e.request = .interrupt

/-- Does this entry clear the poison? -/
def clears (e : Entry) : Bool := e.request = .clearPoison

end Entry

/-- All requests with their outcomes, the latest in front. -/
abbrev Log := List Entry

namespace Log

/-- The names with a served registration or event, the latest new one in front. -/
def names (log : Log) : List String := (log.filterMap Entry.tracks?).dedup

/-- The served events of a name since it was last registered or reset. -/
def count (log : Log) (name : String) : Nat :=
  (log.takeWhile fun e => !e.restarts name).countP (Entry.counts name)

/-- Was there a failure under the lock since the poison was last cleared? -/
def isPoisoned (log : Log) : Bool := (log.takeWhile fun e => !e.clears).any Entry.isFailure

/-- The table that a log stands for. -/
def table (log : Log) : SignalTable := ⟨.tabulate log.names.reverse log.count, log.isPoisoned⟩

theorem nodup_names (log : Log) : log.names.Nodup := List.nodup_dedup _

theorem names_cons (e : Entry) (log : Log) :
    names (e :: log) =
      match e.tracks? with
      | none => log.names
      | some name => if name ∈ log.names then log.names else name :: log.names := by
  unfold names
  rw [List.filterMap_cons]
  cases e.tracks? with
  | none => rfl
  | some name => exact List.dedup_cons' _ _

theorem count_cons (e : Entry) (log : Log) (name : String) :
    count (e :: log) name =
      if e.restarts name then 0 else log.count name + if e.counts name then 1 else 0 := by
  unfold count
  rw [List.takeWhile_cons]
  by_cases h : e.restarts name = true
  · simp [h]
  · simp [h, List.countP_cons]

theorem isPoisoned_cons (e : Entry) (log : Log) :
    isPoisoned (e :: log) = if e.clears then false else e.isFailure || log.isPoisoned := by
  unfold isPoisoned
  rw [List.takeWhile_cons]
  by_cases h : e.clears = true
  · simp [h]
  · simp [h]

/-- A name that is not tracked has no events. -/
theorem count_of_notMem {log : Log} {name : String} (h : name ∉ log.names) : log.count name = 0 := by
  rw [count, List.countP_eq_zero]
  intro e he hcounts
  obtain ⟨hserved, hrequest⟩ := Bool.and_eq_true_iff.1 hcounts
  have htracks : e.tracks? = some name := by
    simp [Entry.tracks?, of_decide_eq_true hrequest, hserved]
  refine h (List.mem_dedup.2 (List.mem_filterMap.2 ⟨e, ?_, htracks⟩))
  exact (List.takeWhile_sublist _).subset he

@[simp] theorem countOf_table (log : Log) (name : String) :
    countOf log.table.counts name = log.count name := by
  rw [countOf, table, Assoc.get?_tabulate]
  by_cases h : name ∈ log.names
  · simp [h]
  · simp [h, count_of_notMem h]

theorem isSome_get?_table (log : Log) (name : String) :
    (log.table.counts.get? name).isSome = decide (name ∈ log.names) := by
  rw [table, Assoc.get?_tabulate]
  by_cases h : name ∈ log.names <;> simp [h]

/-! ## The table of a longer log -/

/-- An entry that changes no count, but maybe the poison. -/
theorem table_cons_of_keeps {e : Entry} {log : Log} {poisoned : Bool} (htracks : e.tracks? = none)
    (hcount : ∀ name, e.restarts name = false ∧ e.counts name = false)
    (hpoisoned : isPoisoned (e :: log) = poisoned) :
    table (e :: log) = { log.table with poisoned } := by
  have hsame : count (e :: log) = log.count := by
    funext name
    simp [count_cons, hcount name]
  rw [table, names_cons, htracks, hsame, hpoisoned]
  rfl

/-- An entry that changes nothing. -/
theorem table_cons_of_idle {e : Entry} (htracks : e.tracks? = none)
    (hcount : ∀ name, e.restarts name = false ∧ e.counts name = false)
    (hfailure : e.isFailure = false) (hclears : e.clears = false) (log : Log) :
    table (e :: log) = log.table := by
  refine table_cons_of_keeps htracks hcount ?_
  rw [isPoisoned_cons, hclears, hfailure]
  rfl

theorem table_cons_of_interrupt (log : Log) :
    table (⟨.interrupt, .ok .done⟩ :: log) = { log.table with poisoned := true } :=
  table_cons_of_keeps rfl (fun _ => ⟨rfl, rfl⟩) (isPoisoned_cons _ log)

theorem table_cons_of_clearPoison (log : Log) :
    table (⟨.clearPoison, .ok .done⟩ :: log) = log.table.clearPoison :=
  table_cons_of_keeps rfl (fun _ => ⟨rfl, rfl⟩) (isPoisoned_cons _ log)

theorem table_cons_of_refused {r : Request} (hr : r ≠ .clearPoison) (cause : Cause) (log : Log) :
    table (⟨r, .error cause⟩ :: log) = log.table := by
  refine table_cons_of_idle ?_ (fun _ => ⟨rfl, rfl⟩) rfl (decide_eq_false hr) log
  cases r <;> rfl

/-- Started again, a name counts no events. -/
theorem count_cons_of_restarts {r : Request} (response : Response) {name : String}
    (hr : r = .register name ∨ r = .reset name) (log : Log) :
    count (⟨r, .ok response⟩ :: log) = Function.update log.count name 0 := by
  funext other
  rw [count_cons, Function.update_apply]
  by_cases h : other = name
  · subst h
    rw [if_pos rfl, if_pos]
    simpa [Entry.restarts] using hr
  · rcases hr with rfl | rfl <;> simp [Entry.restarts, Entry.counts, h, Ne.symm h]

theorem count_cons_of_emit (response : Response) (name : String) (log : Log) :
    count (⟨.emit name, .ok response⟩ :: log) =
      Function.update log.count name (log.count name + 1) := by
  funext other
  rw [count_cons, Function.update_apply]
  by_cases h : other = name
  · subst h
    simp [Entry.restarts, Entry.counts]
  · simp [Entry.restarts, Entry.counts, h, Ne.symm h]

/-- An entry that sets the count of a name, which comes last if it is new. -/
theorem table_cons_of_sets {e : Entry} {name : String} {n : Nat} {log : Log}
    (hnames : names (e :: log) = if name ∈ log.names then log.names else name :: log.names)
    (hcount : count (e :: log) = Function.update log.count name n)
    (hpoisoned : isPoisoned (e :: log) = log.isPoisoned) :
    table (e :: log) = { log.table with counts := log.table.counts.put name n } := by
  have hreverse : (names (e :: log)).reverse =
      if name ∈ log.names.reverse then log.names.reverse else log.names.reverse ++ [name] := by
    rw [hnames]
    by_cases h : name ∈ log.names <;> simp [h]
  have hput := Assoc.put_tabulate (List.nodup_reverse.2 log.nodup_names) log.count name n
  rw [← hreverse, ← hcount] at hput
  rw [table, hpoisoned, ← hput]
  rfl

/-- A served reset sets the count of a name that is tracked. -/
theorem table_cons_of_reset (response : Response) (name : String) (log : Log) :
    table (⟨.reset name, .ok response⟩ :: log) =
      if name ∈ log.names then { log.table with counts := log.table.counts.put name 0 }
      else log.table := by
  have hcount := count_cons_of_restarts (r := .reset name) response (.inr rfl) log
  have hnames : names (⟨.reset name, .ok response⟩ :: log) = log.names := names_cons _ log
  have hpoisoned : isPoisoned (⟨.reset name, .ok response⟩ :: log) = log.isPoisoned :=
    isPoisoned_cons _ log
  by_cases h : name ∈ log.names
  · rw [if_pos h]
    refine table_cons_of_sets ?_ hcount hpoisoned
    rw [hnames, if_pos h]
  · -- The name is not tracked, so its count shows nowhere.
    have hzero : Function.update log.count name 0 = log.count := by
      rw [← count_of_notMem h, Function.update_eq_self]
    rw [if_neg h, table, hnames, hcount, hzero, hpoisoned]
    rfl

end Log

open Log

/-! ## One request -/

section

variable {log : Log} (h : log.isPoisoned = false)

include h

theorem serve_register (name : String) :
    serve (.register name) log.table =
      (.ok (.flag (name ∉ log.names)),
        { log.table with counts := log.table.counts.put name 0 }) := by
  have hnew : (log.table.counts.get? name).isNone = decide (name ∉ log.names) := by
    rw [← Option.not_isSome, isSome_get?_table, decide_not]
  rw [serve, register, locked_of_clean (t := log.table) h, hnew]
  rfl

theorem serve_emit (name : String) :
    serve (.emit name) log.table =
      (.ok (.number (log.count name + 1)),
        { log.table with counts := log.table.counts.put name (log.count name + 1) }) := by
  rw [serve, emit, locked_of_clean (t := log.table) h, countOf_table]
  rfl

theorem serve_count (name : String) :
    serve (.count name) log.table = (.ok (.number (log.count name)), log.table) := by
  rw [serve, SignalTable.count, locked_of_clean (t := log.table) h, countOf_table]
  rfl

theorem serve_tracked :
    serve .tracked log.table = (.ok (.number log.names.length), log.table) := by
  have hlength : log.table.counts.length = log.names.length := by
    rw [table, Assoc.length_tabulate, List.length_reverse]
  rw [serve, tracked, locked_of_clean (t := log.table) h, hlength]
  rfl

theorem serve_reset (name : String) :
    serve (.reset name) log.table =
      (.ok (.flag (name ∈ log.names)),
        if name ∈ log.names then { log.table with counts := log.table.counts.put name 0 }
        else log.table) := by
  rw [serve, reset, locked_of_clean (t := log.table) h, isSome_get?_table]
  by_cases hname : name ∈ log.names <;> simp [hname, respond, Except.map]

theorem serve_snapshot :
    serve .snapshot log.table = (.ok (.counters log.table.counts), log.table) := by
  rw [serve, snapshot, locked_of_clean (t := log.table) h]
  rfl

theorem serve_interrupt :
    serve .interrupt log.table = (.ok .done, { log.table with poisoned := true }) := by
  rw [serve, interrupt, if_neg (by rw [table, h]; exact Bool.false_ne_true)]
  rfl

/-- A request to a table that is not poisoned leads to the table of the longer log. -/
theorem serve_table_of_clean (r : Request) :
    (serve r log.table).2 = table (⟨r, (serve r log.table).1⟩ :: log) := by
  cases r with
  | register name =>
    rw [serve_register h]
    have hcount := count_cons_of_restarts (r := .register name) (.flag (name ∉ log.names)) (.inl rfl) log
    exact (table_cons_of_sets (names_cons _ log) hcount (isPoisoned_cons _ log)).symm
  | emit name =>
    rw [serve_emit h]
    have hcount := count_cons_of_emit (.number (log.count name + 1)) name log
    exact (table_cons_of_sets (names_cons _ log) hcount (isPoisoned_cons _ log)).symm
  | reset name =>
    rw [serve_reset h]
    exact (table_cons_of_reset _ name log).symm
  | count name =>
    rw [serve_count h]
    exact (table_cons_of_idle rfl (fun _ => ⟨rfl, rfl⟩) rfl rfl log).symm
  | tracked =>
    rw [serve_tracked h]
    exact (table_cons_of_idle rfl (fun _ => ⟨rfl, rfl⟩) rfl rfl log).symm
  | snapshot =>
    rw [serve_snapshot h]
    exact (table_cons_of_idle rfl (fun _ => ⟨rfl, rfl⟩) rfl rfl log).symm
  | interrupt =>
    rw [serve_interrupt h]
    exact (table_cons_of_interrupt log).symm
  | clearPoison => exact (table_cons_of_clearPoison log).symm

end

/-- A request to the table of a log leads to the table of the longer log. -/
theorem serve_table (log : Log) (r : Request) :
    (serve r log.table).2 = table (⟨r, (serve r log.table).1⟩ :: log) := by
  cases hpoisoned : log.isPoisoned with
  | false => exact serve_table_of_clean hpoisoned r
  | true =>
    by_cases hr : r = .clearPoison
    · subst hr
      exact (table_cons_of_clearPoison log).symm
    · rw [serve_of_poisoned (t := log.table) hpoisoned hr]
      exact (table_cons_of_refused hr _ log).symm

/-! ## All requests -/

/-- Serves a request and writes it down. -/
def step (s : Log × SignalTable) (r : Request) : Log × SignalTable :=
  (⟨r, (serve r s.2).1⟩ :: s.1, (serve r s.2).2)

/-- The log and the table after some requests to a new table. -/
def run (requests : List Request) : Log × SignalTable := requests.foldl step ([], {})

/-- The table is at all times the one that its log stands for. -/
theorem foldl_step_snd (requests : List Request) (log : Log) :
    (requests.foldl step (log, log.table)).2 = (requests.foldl step (log, log.table)).1.table := by
  induction requests generalizing log with
  | nil => rfl
  | cons r requests ih =>
    rw [List.foldl_cons, step, serve_table]
    exact ih _

theorem run_snd (requests : List Request) : (run requests).2 = (run requests).1.table :=
  foldl_step_snd requests []

/-- The log has all requests, the latest in front. -/
theorem foldl_step_fst (requests : List Request) (s : Log × SignalTable) :
    (requests.foldl step s).1.map Entry.request = requests.reverse ++ s.1.map Entry.request := by
  induction requests generalizing s with
  | nil => rfl
  | cons r requests ih =>
    rw [List.foldl_cons, ih, List.reverse_cons, List.append_assoc]
    rfl

theorem run_fst (requests : List Request) :
    (run requests).1.map Entry.request = requests.reverse := by
  rw [run, foldl_step_fst]
  exact List.append_nil _

/-- After any requests to a new table, the log tells what the table answers. The table is poisoned if
there was a failure under the lock since the poison was last cleared. If it is not, the count of a name
is the number of events served since the name was last registered or reset, the tracked names are those
with a served registration or event, and each answer is given by these. If it is, every request but the
one to clear it is refused and changes nothing. A failure and its clearing leave the counters as they
are. -/
theorem run_refines_log (requests : List Request) :
    let log := (run requests).1
    let t := (run requests).2
    log.map Entry.request = requests.reverse ∧
    t.poisoned = log.isPoisoned ∧
    (t.poisoned = false →
      (∀ name, serve (.count name) t = (.ok (.number (log.count name)), t)) ∧
      (∃ counts, serve .snapshot t = (.ok (.counters counts), t) ∧
        counts.keys = log.names.reverse ∧
        ∀ name ∈ log.names, counts.get? name = some (log.count name)) ∧
      (∀ name, (serve (.emit name) t).1 = .ok (.number (log.count name + 1))) ∧
      serve .tracked t = (.ok (.number log.names.length), t) ∧
      (∀ name, (serve (.register name) t).1 = .ok (.flag (name ∉ log.names))) ∧
      (∀ name, (serve (.reset name) t).1 = .ok (.flag (name ∈ log.names))) ∧
      (serve .interrupt t).1 = .ok .done) ∧
    (t.poisoned = true → ∀ r, r ≠ .clearPoison →
      ∃ cause, serve r t = (.error cause, t) ∧ cause.code = "E502") ∧
    (serve .interrupt t).2.counts = t.counts ∧
    serve .clearPoison t = (.ok .done, { t with poisoned := false }) := by
  intro log t
  have ht : t = log.table := run_snd requests
  rw [ht]
  refine ⟨run_fst requests, rfl, fun hclean => ?_, fun hpoisoned r hr => ?_, ?_, rfl⟩
  · refine ⟨serve_count hclean, ⟨_, serve_snapshot hclean, ?_, fun name hname => ?_⟩,
      fun name => ?_, serve_tracked hclean, fun name => ?_, fun name => ?_, ?_⟩
    · exact Assoc.keys_tabulate _ _
    · rw [table, Assoc.get?_tabulate, if_pos (List.mem_reverse.2 hname)]
    · rw [serve_emit hclean]
    · rw [serve_register hclean]
    · rw [serve_reset hclean]
    · rw [serve_interrupt hclean]
  · exact ⟨_, serve_of_poisoned hpoisoned hr, rfl⟩
  · rw [serve, interrupt]
    split_ifs <;> rfl

/-- An event that was refused does not count, and those before the failure do. -/
theorem run_refines_log_poisonedOnce :
    let requests : List Request := [.register "a", .emit "a", .emit "b", .interrupt, .emit "a",
      .clearPoison, .emit "a", .reset "c"]
    let log := (run requests).1
    let t := (run requests).2
    t.poisoned = false ∧ log.names = ["b", "a"] ∧
      serve (.count "a") t = (.ok (.number 2), t) ∧ serve .tracked t = (.ok (.number 2), t) ∧
      (serve (.register "c") t).1 = .ok (.flag true) ∧
      (run (requests.take 4)).2.poisoned = true ∧
      ∃ cause, serve (.emit "a") (run (requests.take 4)).2 =
        (.error cause, (run (requests.take 4)).2) ∧ cause.code = "E502" := by
  intro requests log t
  obtain ⟨-, -, hclean, -⟩ := run_refines_log requests
  obtain ⟨hcount, -, -, htracked, hregister, -⟩ := hclean rfl
  obtain ⟨-, -, -, hpoisoned, -⟩ := run_refines_log (requests.take 4)
  exact ⟨rfl, rfl, hcount "a", htracked, hregister "c", rfl, hpoisoned rfl (.emit "a") (by decide)⟩

end SignalTable

end Scriptlet
