import Mathlib.Data.List.Induction
import Scriptlet.Proofs.Registrations

/-!
# The registration that counts

Of several registrations of one module the last one that succeeds counts, and it counts as a whole: nothing
of an earlier table is left, and a registration that fails leaves the registry as it was.

* `Registry.latest?`: the last registration of a module that succeeds.
* `Registry.get?_after`: what one registration does to the table of each module.
* `Registry.get?_history`: the table of each module after a sequence of registrations.
* `Registry.history_eq_latest`: what a registry answers, by the last registrations.
-/

namespace Scriptlet

variable {σ : Type}

namespace Registration

/-- Are all entries native functions? -/
def sound (c : Registration σ) : Bool := c.symbols.all fun e => e.2.isSome

/-- The entry at `symbol` is no native function, and all entries before it are. -/
def FirstOther (c : Registration σ) (symbol : String) : Prop :=
  ∃ before rest, c.symbols = before ++ (symbol, none) :: rest ∧ ∀ e ∈ before, e.2.isSome

end Registration

namespace Registry

/-! ## Tables -/

/-- The entries of a table in the form in which they are registered. -/
def given (table : NativeModule σ) : List (String × Option (Native σ)) :=
  table.map fun e => (e.1, some e.2)

theorem mem_given {table : NativeModule σ} {symbol : String} {native : Native σ} :
    (symbol, some native) ∈ given table ↔ (symbol, native) ∈ table := by
  simp [given]

/-- Entries that are native functions, or such entries and then another one. -/
theorem given_or (symbols : List (String × Option (Native σ))) :
    (∃ table, symbols = given table) ∨
      ∃ table symbol rest, symbols = given table ++ (symbol, none) :: rest := by
  induction symbols with
  | nil => exact .inl ⟨[], rfl⟩
  | cons e symbols ih =>
    obtain ⟨symbol, _ | native⟩ := e
    · exact .inr ⟨[], symbol, symbols, rfl⟩
    · rcases ih with ⟨table, rfl⟩ | ⟨table, other, rest, rfl⟩
      · exact .inl ⟨(symbol, native) :: table, rfl⟩
      · exact .inr ⟨(symbol, native) :: table, other, rest, rfl⟩

theorem exists_given_iff {symbols : List (String × Option (Native σ))} :
    (∃ table, symbols = given table) ↔ ∀ e ∈ symbols, e.2.isSome := by
  constructor
  · rintro ⟨table, rfl⟩
    exact List.forall_mem_map.2 fun _ _ => rfl
  · intro h
    rcases given_or symbols with hgiven | ⟨table, symbol, rest, rfl⟩
    · exact hgiven
    · exact absurd (h (symbol, none) (by simp)) (by simp)

theorem entries_given_append (table : NativeModule σ) (rest : List (String × Option (Native σ))) :
    entries (given table ++ rest) = (entries rest).map (table ++ ·) := by
  induction table with
  | nil => cases hrest : entries rest <;> simp [given, hrest, Except.map]
  | cons e table ih =>
    show entries ((e.1, some e.2) :: (given table ++ rest)) = _
    rw [entries, ih]
    cases entries rest <;> rfl

theorem entries_given (table : NativeModule σ) : entries (given table) = .ok table := by
  have h := entries_given_append table []
  rw [List.append_nil] at h
  rw [h]
  exact congrArg Except.ok (List.append_nil table)

/-- Where some entry is no native function, the first one of these is told. -/
theorem entries_eq_error_iff {symbols : List (String × Option (Native σ))} {symbol : String} :
    entries symbols = .error symbol ↔
      ∃ before rest, symbols = before ++ (symbol, none) :: rest ∧ ∀ e ∈ before, e.2.isSome := by
  constructor
  · intro h
    rcases given_or symbols with ⟨table, rfl⟩ | ⟨table, other, rest, rfl⟩
    · rw [entries_given] at h
      cases h
    · rw [entries_given_append] at h
      cases h
      exact ⟨given table, rest, rfl, exists_given_iff.1 ⟨table, rfl⟩⟩
  · rintro ⟨before, rest, rfl, hbefore⟩
    obtain ⟨table, rfl⟩ := exists_given_iff.2 hbefore
    rw [entries_given_append]
    rfl

/-! ## One registration -/

variable {c : Registration σ}

theorem register_eq_error_iff {r : Registry σ} {symbol : String} :
    r.register c.name c.symbols = .error symbol ↔ c.FirstOther symbol := by
  rw [Registration.FirstOther, ← entries_eq_error_iff, register]
  cases entries c.symbols <;> simp

theorem exists_firstOther_iff : (∃ symbol, c.FirstOther symbol) ↔ ∃ e ∈ c.symbols, e.2 = none := by
  constructor
  · rintro ⟨symbol, before, rest, hsymbols, -⟩
    exact ⟨(symbol, none), by simp [hsymbols], rfl⟩
  · rintro ⟨e, he, hnone⟩
    rcases given_or c.symbols with hgiven | ⟨table, symbol, rest, hsymbols⟩
    · have hsome := exists_given_iff.1 hgiven e he
      rw [hnone] at hsome
      cases hsome
    · exact ⟨symbol, given table, rest, hsymbols, exists_given_iff.1 ⟨table, rfl⟩⟩

/-- A registration that fails leaves the registry as it was. -/
theorem after_of_firstOther {symbol : String} (h : c.FirstOther symbol) (r : Registry σ) :
    r.after c = r := by
  rw [after, register_eq_error_iff.2 h]
  rfl

/-- A registration that succeeds puts its own table in. -/
theorem after_of_sound (h : c.sound = true) (r : Registry σ) :
    ∃ table, given table = c.symbols ∧ r.after c = r.put c.name table := by
  obtain ⟨table, htable⟩ := exists_given_iff.2 (List.all_eq_true.1 h)
  refine ⟨table, htable.symm, ?_⟩
  rw [after, register, htable, entries_given]
  rfl

/-- The table of a module after a registration: that of the registration, or the one before. -/
theorem get?_after (r : Registry σ) (c : Registration σ) (module : String) :
    ((r.after c).get? module).map given =
      if c.name = module ∧ c.sound = true then some c.symbols else (r.get? module).map given := by
  by_cases hsound : c.sound = true
  · obtain ⟨table, htable, hafter⟩ := after_of_sound hsound r
    rw [hafter]
    by_cases hname : c.name = module
    · subst hname
      rw [if_pos ⟨rfl, hsound⟩, Assoc.get?_put_self, Option.map_some, htable]
    · rw [if_neg fun h => hname h.1, Assoc.get?_put_of_ne _ _ (Ne.symm hname)]
  · have hother : ∃ symbol, c.FirstOther symbol := by
      rw [exists_firstOther_iff]
      simpa [Registration.sound] using hsound
    obtain ⟨symbol, hsymbol⟩ := hother
    rw [if_neg fun h => hsound h.2, after_of_firstOther hsymbol]

/-! ## Sequences -/

/-- The last registration of a module in a sequence that succeeds. -/
def latest? (module : String) (cs : List (Registration σ)) : Option (Registration σ) :=
  (cs.filter fun c => c.name = module ∧ c.sound = true).getLast?

theorem latest?_append_singleton (module : String) (cs : List (Registration σ)) (c : Registration σ) :
    latest? module (cs ++ [c]) =
      if c.name = module ∧ c.sound = true then some c else latest? module cs := by
  unfold latest?
  split_ifs with h
  · simp [List.filter_append, h]
  · simp [List.filter_append, h]

theorem history_append_singleton (cs : List (Registration σ)) (c : Registration σ) :
    history (cs ++ [c]) = (history cs).after c := by
  simp [history]

theorem get?_history (cs : List (Registration σ)) (module : String) :
    ((history cs).get? module).map given = (latest? module cs).map Registration.symbols := by
  induction cs using List.reverseRecOn with
  | nil => rfl
  | append_singleton cs c ih =>
    -- The last registration of the sequence decides about its own module, if it succeeds.
    rw [history_append_singleton, get?_after, latest?_append_singleton, ih]
    split_ifs <;> rfl

theorem isSome_get?_history (cs : List (Registration σ)) (module : String) :
    ((history cs).get? module).isSome = (latest? module cs).isSome := by
  have h := congrArg Option.isSome (get?_history cs module)
  rwa [Option.isSome_map, Option.isSome_map] at h

theorem find?_history_eq_some_iff {cs : List (Registration σ)} {module symbol : String}
    {native : Native σ} : (history cs).find? module symbol = some native ↔
      ∃ c, latest? module cs = some c ∧ (symbol, some native) ∈ c.symbols := by
  have htable := get?_history cs module
  rw [find?]
  cases hget : (history cs).get? module with
  | none =>
    rw [hget, Option.map_none, eq_comm, Option.map_eq_none_iff] at htable
    simp [htable]
  | some table =>
    rw [hget, Option.map_some, eq_comm, Option.map_eq_some_iff] at htable
    obtain ⟨c, hc, hsymbols⟩ := htable
    have hkeys : table.keys.Nodup := (distinct_history cs).symbols hget
    rw [Option.bind_some, Assoc.get?_eq_some_iff hkeys, ← mem_given, ← hsymbols, hc]
    simp

/-- A registration fails exactly if some entry is no native function. It tells the first one of these, and the
registry stays as it was. After any sequence of registrations, a module has the table of its last registration
that succeeded, with nothing of earlier ones, and all that can be asked of the registry agrees with this. -/
theorem history_eq_latest (cs : List (Registration σ)) :
    (∀ c : Registration σ,
      let call := (history cs).register c.name c.symbols
      ((∃ symbol, call = .error symbol) ↔ ∃ e ∈ c.symbols, e.2 = none) ∧
      (∀ symbol, call = .error symbol ↔ c.FirstOther symbol) ∧
      ((∃ symbol, call = .error symbol) → history (cs ++ [c]) = history cs)) ∧
    (∀ module, ((history cs).get? module).map given = (latest? module cs).map Registration.symbols) ∧
    (∀ module symbol native, (history cs).find? module symbol = some native ↔
      ∃ c, latest? module cs = some c ∧ (symbol, some native) ∈ c.symbols) ∧
    (∀ module, (history cs).has module = (latest? module cs).isSome) ∧
    (history cs).modules.Pairwise (· < ·) ∧
    ∀ module, module ∈ (history cs).modules ↔ (latest? module cs).isSome := by
  refine ⟨fun c => ?_, get?_history cs, fun _ _ _ => find?_history_eq_some_iff, fun module => ?_, ?_,
    fun module => ?_⟩
  · refine ⟨?_, fun _ => register_eq_error_iff, ?_⟩
    · simp only [register_eq_error_iff, exists_firstOther_iff]
    · rintro ⟨symbol, hsymbol⟩
      rw [history_append_singleton, after_of_firstOther (register_eq_error_iff.1 hsymbol)]
  · rw [← isSome_get?_history, Bool.eq_iff_iff, Assoc.isSome_get?_iff, has, List.contains_iff_mem]
  · exact pairwise_sorted (distinct_history cs).modules
  · rw [← isSome_get?_history, Assoc.isSome_get?_iff, modules, mem_sorted]

end Registry

end Scriptlet
