import Mathlib.Tactic.Common
import Scriptlet.Native.Registry

/-!
# Histories of registrations

A registry comes about by one registration after another. No name is ever in it twice, and its paths are
listed once each, by module and then by symbol. This is the order of the paths themselves unless the name of
a module continues that of another: what comes next in the longer name is then compared with the two colons
of the shorter path.

* `Registry.history`: the registry after some registrations, of which some may have failed.
* `Registry.distinct_history`: no name is in it twice.
* `Registry.pairwise_pairs`: the order in which the registered pairs are listed.
* `Registry.symbols_pairwise_iff`: when the paths are listed in ascending order.
-/

namespace Scriptlet

/-! ## Maps -/

namespace Assoc

variable {α : Type}

theorem isSome_get?_iff {m : Assoc α} {name : String} : (m.get? name).isSome ↔ name ∈ m.keys := by
  induction m with
  | nil => simp [keys]
  | cons e m ih =>
    obtain ⟨key, a⟩ := e
    rw [get?_cons]
    by_cases h : name = key
    · simp [h, keys]
    · simpa [h, keys] using ih

theorem get?_eq_some_iff {m : Assoc α} (h : m.keys.Nodup) {name : String} {a : α} :
    m.get? name = some a ↔ (name, a) ∈ m := by
  refine ⟨mem_of_get?, fun hmem => ?_⟩
  induction m with
  | nil => cases hmem
  | cons e m ih =>
    obtain ⟨key, b⟩ := e
    obtain ⟨hkey, hkeys⟩ := List.nodup_cons.1 h
    rw [get?_cons]
    rcases List.mem_cons.1 hmem with heq | hrest
    · cases heq
      exact if_pos rfl
    · have hne : name ≠ key := by
        rintro rfl
        exact hkey (List.mem_map.2 ⟨(name, a), hrest, rfl⟩)
      rw [if_neg hne]
      exact ih hkeys hrest

theorem nodup_keys_put {m : Assoc α} (h : m.keys.Nodup) (name : String) (a : α) :
    (m.put name a).keys.Nodup := by
  rw [keys_put]
  split_ifs with hmem
  · exact h
  · refine List.nodup_append.2 ⟨h, by simp, ?_⟩
    simpa using fun key hkey => ne_of_mem_of_not_mem hkey hmem

end Assoc

/-! ## Registrations -/

/-- A module to register: its name and the entries of its table, of which some may be no native functions.
A table has one entry for each of its symbols. -/
structure Registration (σ : Type) where
  name : String
  symbols : List (String × Option (Native σ))
  distinct : (symbols.map Prod.fst).Nodup

namespace Registry

variable {σ : Type} {r : Registry σ}

/-- The registry after a registration, which changes nothing if it fails. -/
def after (r : Registry σ) (c : Registration σ) : Registry σ :=
  (r.register c.name c.symbols).toOption.getD r

/-- The registry after a sequence of registrations. -/
def history (cs : List (Registration σ)) : Registry σ := cs.foldl after empty

/-- A table has the symbols that were given for it. -/
theorem keys_of_entries {symbols : List (String × Option (Native σ))} {table : NativeModule σ}
    (h : entries symbols = .ok table) : table.keys = symbols.map Prod.fst := by
  induction symbols generalizing table with
  | nil =>
    cases h
    rfl
  | cons e symbols ih =>
    obtain ⟨symbol, _ | native⟩ := e
    · cases h
    · rw [entries] at h
      split at h
      · cases h
        rename_i rest hrest
        simpa [Assoc.keys] using ih hrest
      · cases h

/-- A registration fails, or puts the table of the module in. -/
theorem after_eq (r : Registry σ) (c : Registration σ) :
    r.after c = r ∨ ∃ table : NativeModule σ, table.keys = c.symbols.map Prod.fst ∧
      r.after c = r.put c.name table := by
  unfold after register
  split
  · rename_i table htable
    exact .inr ⟨table, keys_of_entries htable, rfl⟩
  · exact .inl rfl

/-- No two modules have one name, and no two functions of a module have one symbol. -/
structure Distinct (r : Registry σ) : Prop where
  modules : r.keys.Nodup
  symbols : ∀ {module table}, r.get? module = some table → table.keys.Nodup

theorem Distinct.after (h : r.Distinct) (c : Registration σ) : (r.after c).Distinct := by
  rcases r.after_eq c with hsame | ⟨table, hkeys, hput⟩
  · rwa [hsame]
  · rw [hput]
    refine ⟨Assoc.nodup_keys_put h.modules c.name table, fun hget => ?_⟩
    rcases Assoc.eq_or_get?_of_put hget with ⟨-, rfl⟩ | hold
    · rw [hkeys]
      exact c.distinct
    · exact h.symbols hold

theorem distinct_history (cs : List (Registration σ)) : (history cs).Distinct := by
  have hrun (r : Registry σ) (h : r.Distinct) : (cs.foldl Registry.after r).Distinct := by
    induction cs generalizing r with
    | nil => exact h
    | cons c cs ih => exact ih _ (h.after c)
  exact hrun empty ⟨List.nodup_nil, fun hget => by cases hget⟩

/-! ## Listings -/

theorem mem_sorted {names : List String} {name : String} : name ∈ sorted names ↔ name ∈ names :=
  (List.mergeSort_perm _ _).mem_iff

theorem pairwise_sorted {names : List String} (h : names.Nodup) : (sorted names).Pairwise (· < ·) := by
  have hle : (sorted names).Pairwise fun a b => decide (a ≤ b) = true := by
    apply List.pairwise_mergeSort
    · intro a b c hab hbc
      exact decide_eq_true (String.le_trans (of_decide_eq_true hab) (of_decide_eq_true hbc))
    · intro a b
      simpa using String.le_total a b
  have hne : (sorted names).Nodup := (List.mergeSort_perm _ _).nodup_iff.2 h
  refine (hle.and hne).imp fun {a b} hab => ?_
  by_contra hlt
  exact hab.2 (String.le_antisymm (of_decide_eq_true hab.1) (String.not_lt.1 hlt))

theorem sorted_of_pairwise {names : List String} (h : names.Pairwise (· ≤ ·)) : sorted names = names :=
  List.mergeSort_of_pairwise (by simpa using h)

/-- The modules with their symbols, in the order in which their paths are listed. -/
def pairs (r : Registry σ) : List (String × String) :=
  r.modules.flatMap fun module => (symbolsOf ((r.get? module).getD [])).map (module, ·)

theorem symbols_eq (r : Registry σ) : r.symbols = r.pairs.map fun p => Node.pathText p.1 p.2 := by
  rw [symbols, pairs, List.map_flatMap]
  simp only [List.map_map]
  rfl

theorem mem_pairs {module symbol : String} :
    (module, symbol) ∈ r.pairs ↔ (r.find? module symbol).isSome := by
  have hmodule : module ∈ r.modules ↔ (r.get? module).isSome := by
    rw [modules, mem_sorted, Assoc.isSome_get?_iff]
  have hpair : (module, symbol) ∈ r.pairs ↔
      module ∈ r.modules ∧ symbol ∈ symbolsOf ((r.get? module).getD []) := by
    simp [pairs]
  rw [hpair, hmodule, find?]
  cases r.get? module with
  | none => simp
  | some table =>
    show _ ∧ symbol ∈ sorted table.keys ↔ (table.get? symbol).isSome
    rw [mem_sorted, Assoc.isSome_get?_iff]
    exact and_iff_right rfl

/-- The order of modules and then of symbols. -/
abbrev Before : String × String → String × String → Prop := Prod.Lex (· < ·) (· < ·)

theorem Before.asymm {p q : String × String} (h : Before p q) : ¬ Before q p := by
  intro hback
  rcases Prod.lex_def.1 h with hmodule | ⟨hmodule, hsymbol⟩
  · rcases Prod.lex_def.1 hback with hback | ⟨hsame, -⟩
    · exact String.lt_asymm hmodule hback
    · exact String.lt_irrefl _ (hsame ▸ hmodule)
  · rcases Prod.lex_def.1 hback with hback | ⟨-, hback⟩
    · exact String.lt_irrefl _ (hmodule ▸ hback)
    · exact String.lt_asymm hsymbol hback

theorem Distinct.pairwise_pairs (h : r.Distinct) : r.pairs.Pairwise Before := by
  rw [pairs, List.pairwise_flatMap]
  refine ⟨fun module hmodule => ?_, (pairwise_sorted h.modules).imp fun {m m'} hlt => ?_⟩
  · rw [List.pairwise_map]
    have hsymbols : ((r.get? module).getD []).keys.Nodup := by
      cases htable : r.get? module with
      | none => exact List.nodup_nil
      | some table => exact h.symbols htable
    exact (pairwise_sorted hsymbols).imp fun hlt => Prod.Lex.right _ hlt
  · intro p hp q hq
    obtain ⟨s, -, rfl⟩ := List.mem_map.1 hp
    obtain ⟨t, -, rfl⟩ := List.mem_map.1 hq
    exact Prod.Lex.left _ _ hlt

/-- A relation holds along a list in strict order if it holds of all members in that order. -/
theorem pairwise_iff_of_before {l : List (String × String)} (hl : l.Pairwise Before)
    {R : String × String → String × String → Prop} :
    l.Pairwise R ↔ ∀ p ∈ l, ∀ q ∈ l, Before p q → R p q := by
  constructor
  · intro hR p hp q hq
    refine List.Pairwise.forall_of_forall_of_flip (R := fun p q => Before p q → R p q) ?_ ?_ ?_ hp hq
    · exact fun p _ hpp => absurd hpp hpp.asymm
    · exact hR.imp fun {p q} (h : R p q) (_ : Before p q) => h
    · exact hl.imp fun h hback => absurd hback h.asymm
  · intro h
    exact hl.imp_of_mem fun hp hq hpq => h _ hp _ hq hpq

/-! ## The order of paths -/

/-- Where neither of two texts continues the other, what follows them does not matter. -/
theorem lex_append {a b : List Char} (h : List.Lex (· < ·) a b) (hstarts : ¬ a <+: b) (u v : List Char) :
    List.Lex (· < ·) (a ++ u) (b ++ v) := by
  induction h with
  | nil => exact absurd List.nil_prefix hstarts
  | rel hlt => exact .rel hlt
  | cons _ ih => exact .cons (ih fun h => hstarts (List.cons_prefix_cons.2 ⟨rfl, h⟩))

theorem append_lt_append_iff {a u v : String} : a ++ u < a ++ v ↔ u < v := by
  rw [String.lt_iff, String.lt_iff, String.toList_append, String.toList_append]
  induction a.toList with
  | nil => rfl
  | cons c cs ih =>
    rw [List.cons_append, List.cons_append, List.cons_lt_cons_iff, ih]
    simp

theorem append_le_append_iff {a u v : String} : a ++ u ≤ a ++ v ↔ u ≤ v := by
  rw [← String.not_lt, ← String.not_lt, append_lt_append_iff]

theorem lt_append {a more : String} (h : more ≠ "") : a < a ++ more := by
  have hempty : "" < more := by
    rw [String.lt_iff]
    cases hchars : more.toList with
    | nil => exact absurd (String.toList_eq_nil_iff.1 hchars) h
    | cons c cs => exact List.Lex.nil
  rwa [← append_lt_append_iff (a := a), String.append_empty] at hempty

/-- Paths of different modules stand in the order of the modules, unless the longer name continues the other
one. Then the two colons are compared with what comes next in it. -/
theorem pathText_le_iff {m m' : String} (h : m < m') (s s' : String) :
    Node.pathText m s ≤ Node.pathText m' s' ↔
      ∀ more, m' = m ++ more → "::" ++ s ≤ more ++ "::" ++ s' := by
  by_cases hstarts : m.toList <+: m'.toList
  · obtain ⟨rest, hrest⟩ := hstarts
    obtain rfl : m' = m ++ String.ofList rest := by
      rw [← String.toList_inj, String.toList_append, String.toList_ofList, hrest]
    have hcancel : ∀ more, m ++ String.ofList rest = m ++ more ↔ more = String.ofList rest := by
      intro more
      rw [String.append_right_inj, eq_comm]
    simp only [hcancel, forall_eq, Node.pathText, String.append_assoc, append_le_append_iff]
  · have hlt : Node.pathText m s ≤ Node.pathText m' s' := by
      have hlex := lex_append (String.lt_iff.1 h) hstarts ("::" ++ s).toList ("::" ++ s').toList
      rw [← String.not_lt]
      apply String.lt_asymm
      rw [String.lt_iff]
      simpa [Node.pathText] using hlex
    refine ⟨fun _ more hmore => absurd ?_ hstarts, fun _ => hlt⟩
    rw [hmore, String.toList_append]
    exact List.prefix_append _ _

/-- After any registrations there is one path listed for each registered pair. The paths stand in ascending
order exactly if no path of a module comes after a path of a module whose name continues that of the first. -/
theorem symbols_pairwise_iff (cs : List (Registration σ)) :
    ∃ listed : List (String × String),
      listed.Nodup ∧
      (∀ module symbol, (module, symbol) ∈ listed ↔ ((history cs).find? module symbol).isSome) ∧
      (history cs).symbols = listed.map (fun p => Node.pathText p.1 p.2) ∧
      ((history cs).symbols.Pairwise (· ≤ ·) ↔
        ∀ module more symbol other, more ≠ "" → (module, symbol) ∈ listed →
          (module ++ more, other) ∈ listed → "::" ++ symbol ≤ more ++ "::" ++ other) := by
  have hbefore := (distinct_history cs).pairwise_pairs
  refine ⟨(history cs).pairs, ?_, fun _ _ => mem_pairs, symbols_eq _, ?_⟩
  · refine hbefore.imp fun {p q} h heq => ?_
    subst heq
    exact h.asymm h
  rw [symbols_eq, List.pairwise_map, pairwise_iff_of_before hbefore]
  constructor
  · intro h module more symbol other hmore hmem hmem'
    have hlt : module < module ++ more := lt_append hmore
    have hle := h (module, symbol) hmem (module ++ more, other) hmem' (Prod.Lex.left _ _ hlt)
    exact (pathText_le_iff hlt symbol other).1 hle more rfl
  · rintro h ⟨m, s⟩ hp ⟨m', s'⟩ hq hpq
    rcases Prod.lex_def.1 hpq with hlt | ⟨rfl, hlt⟩
    · refine (pathText_le_iff hlt s s').2 fun more hmore => ?_
      subst hmore
      refine h m more s s' ?_ hp hq
      rintro rfl
      simp at hlt
    · have hle : s ≤ s' := String.not_lt.1 (String.lt_asymm hlt)
      rwa [Node.pathText, Node.pathText, append_le_append_iff]

/-- A function `os::b` and then a function `os2::a`, where a digit comes before the colon. -/
def digitModules : List (Registration Unit) :=
  let native : Native Unit := ⟨"unit", fun _ s => (.value .unit, s), ""⟩
  [⟨"os", [("b", some native)], by simp⟩, ⟨"os2", [("a", some native)], by simp⟩]

theorem symbols_digitModules_descending :
    (history digitModules).symbols = ["os::b", "os2::a"] ∧
      ¬ (history digitModules).symbols.Pairwise (· ≤ ·) := by
  have hmodules : (history digitModules).modules = ["os", "os2"] := sorted_of_pairwise (by decide)
  have hfirst : symbolsOf (((history digitModules).get? "os").getD []) = ["b"] :=
    sorted_of_pairwise (by decide)
  have hsecond : symbolsOf (((history digitModules).get? "os2").getD []) = ["a"] :=
    sorted_of_pairwise (by decide)
  have hsymbols : (history digitModules).symbols = ["os::b", "os2::a"] := by
    rw [symbols, hmodules, List.flatMap_cons, List.flatMap_cons, List.flatMap_nil, hfirst, hsecond]
    decide
  rw [hsymbols]
  exact ⟨rfl, by decide⟩

end Registry

end Scriptlet
