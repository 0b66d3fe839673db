import Mathlib.Tactic.Common
import Scriptlet.Command.Basic

/-!
# What becomes of settings

Reading settings from plain data gives settings or a problem that can be told, but for two things: keys that
settings do not have are put in order before they are told, and not all keys have a common order; and a
number of too many digits cannot be shown in the text of a problem.

* `Datum.show?_eq_none_iff`: what cannot be shown.
* `Config.clash?_eq_none_iff`: which keys can be put in order.
* `Config.Breaks d`: the data that settings cannot be read from and whose problem cannot be told either.
* `Command.settings_settle_iff`: all other data give settings or a problem, and a command with such a problem
  ends with the exit status one.
-/

namespace Scriptlet

/-! ## Data that cannot be shown -/

namespace Datum

/-- An integer with too many digits stands somewhere in the datum. -/
@[mk_iff]
inductive HoldsLong : Datum → Prop
  | int {n : Int} : Decimal.power Decimal.plainLimit ≤ n.natAbs → HoldsLong (.int n)
  | list {items : List Datum} {d : Datum} : d ∈ items → HoldsLong d → HoldsLong (.list items)
  | key {keys values : List Datum} {d : Datum} : d ∈ keys → HoldsLong d → HoldsLong (.mapping keys values)
  | entry {keys values : List Datum} {d : Datum} :
      d ∈ values → HoldsLong d → HoldsLong (.mapping keys values)

theorem bind_pure_eq_none_iff {α β : Type} {x : Option α} {f : α → β} :
    (do return f (← x)) = none ↔ x = none := by
  cases x <;> simp

theorem bind_bind_pure_eq_none_iff {α β γ : Type} {x : Option α} {y : Option β} {f : α → β → γ} :
    (do let a ← x; let b ← y; return f a b) = none ↔ x = none ∨ y = none := by
  cases x <;> cases y <;> simp

mutual

theorem show?_eq_none_iff : ∀ d : Datum, d.show? = none ↔ d.HoldsLong
  | .null | .bool _ | .float _ | .str _ | .other _ _ => by
    rw [show?, holdsLong_iff]
    simp
  | .int n => by
    rw [show?, holdsLong_iff, Decimal.ofInt?]
    simp
  | .list items => by
    rw [show?, bind_pure_eq_none_iff, showAll?_eq_none_iff items, holdsLong_iff]
    simp
  | .mapping keys values => by
    rw [show?, bind_bind_pure_eq_none_iff, showAll?_eq_none_iff keys, showAll?_eq_none_iff values,
      holdsLong_iff]
    simp

theorem showAll?_eq_none_iff : ∀ ds : List Datum, showAll? ds = none ↔ ∃ d ∈ ds, d.HoldsLong
  | [] => by simp [showAll?]
  | d :: ds => by
    rw [showAll?, bind_bind_pure_eq_none_iff, show?_eq_none_iff d, showAll?_eq_none_iff ds]
    simp

end

/-! ## Keys in order -/

/-- What has an order: texts among each other, and numbers and booleans among each other. -/
inductive OrderKind where
  | text
  | number

/-- The kind of data that a datum can be compared with. -/
def orderKind? : Datum → Option OrderKind
  | .str _ => some .text
  | .bool _ | .int _ | .float _ => some .number
  | _ => none

/-- The two can be compared. -/
def Comparable (a b : Datum) : Prop := ∃ kind, a.orderKind? = some kind ∧ b.orderKind? = some kind

theorem Comparable.trans {a b c : Datum} (hab : a.Comparable b) (hbc : b.Comparable c) :
    a.Comparable c := by
  obtain ⟨kind, ha, hb⟩ := hab
  obtain ⟨kind', hb', hc⟩ := hbc
  obtain rfl : kind = kind' := Option.some.inj (hb.symm.trans hb')
  exact ⟨kind, ha, hc⟩

end Datum

namespace Config

theorem isSome_keyLe?_iff {a b : Datum} : (keyLe? a b).isSome ↔ a.Comparable b := by
  cases a <;> cases b <;> simp [keyLe?, Datum.quantity?, Datum.Comparable, Datum.orderKind?]

/-- Keys can be put in order if any two of them can be compared. -/
theorem clash?_eq_none_iff : ∀ keys : List Datum, clash? keys = none ↔ keys.Pairwise Datum.Comparable
  | [] => by simp [clash?]
  | [_] => by simp [clash?]
  | a :: b :: keys => by
    have hkeys := clash?_eq_none_iff (b :: keys)
    by_cases hab : a.Comparable b
    · rw [clash?, if_pos (isSome_keyLe?_iff.2 hab), hkeys]
      refine ⟨fun hrest => ?_, fun h => (List.pairwise_cons.1 h).2⟩
      -- what can be compared with `b` can be compared with `a`
      have hb := (List.pairwise_cons.1 hrest).1
      exact List.pairwise_cons.2 ⟨List.forall_mem_cons.2 ⟨hab, fun k hk => hab.trans (hb k hk)⟩, hrest⟩
    · rw [clash?, if_neg fun h => hab (isSome_keyLe?_iff.1 h)]
      refine iff_of_false (Option.some_ne_none _) fun h => hab ?_
      exact (List.pairwise_cons.1 h).1 b List.mem_cons_self

/-- The keys that are those of no setting. -/
def unknownKeys (keys : List Datum) : List Datum := keys.filter (!isKnown ·)

theorem keyText?_eq_none_iff (k : Datum) : keyText? k = none ↔ k.HoldsLong := by
  cases k with
  | str s =>
    rw [Datum.holdsLong_iff]
    simp [keyText?]
  | _ => exact Datum.show?_eq_none_iff _

theorem mapM_keyText?_eq_none_iff (keys : List Datum) :
    keys.mapM keyText? = none ↔ ∃ k ∈ keys, k.HoldsLong := by
  induction keys with
  | nil => simp
  | cons k keys ih =>
    rw [List.mapM_cons, Datum.bind_bind_pure_eq_none_iff, keyText?_eq_none_iff, ih]
    simp

/-! ## Problems that are told -/

section

variable {α β : Type}

/-- If there is no result, then because of a problem that can be told. -/
def Settles (x : Except Obstacle α) : Prop := ∀ o, x = .error o → ∃ p, o = .problem p

@[simp] theorem settles_ok (a : α) : Settles (.ok a) := by
  intro o h
  cases h

@[simp] theorem settles_error {o : Obstacle} : Settles (α := α) (.error o) ↔ ∃ p, o = .problem p := by
  constructor
  · intro h
    exact h o rfl
  · intro h o' ho
    cases ho
    exact h

theorem settles_bind {x : Except Obstacle α} {f : α → Except Obstacle β} :
    Settles (x >>= f) ↔ Settles x ∧ ∀ a, x = .ok a → Settles (f a) := by
  cases x with
  | ok a => simp [bind, Except.bind]
  | error o => simp [bind, Except.bind]

theorem settles_refuse {shown : Option String} {problem : String → Problem} :
    Settles (refuse (α := α) shown problem) ↔ shown ≠ none := by
  cases shown <;> simp [refuse]

end

theorem settles_checkKeys (keys : List Datum) :
    Settles (checkKeys keys) ↔
      (unknownKeys keys).Pairwise Datum.Comparable ∧ ∀ k ∈ unknownKeys keys, ¬ k.HoldsLong := by
  rw [checkKeys, show (keys.filter (!isKnown ·)) = unknownKeys keys from rfl]
  cases unknownKeys keys with
  | nil => simp
  | cons k rest =>
    have hshown : (sortKeys (k :: rest)).mapM keyText? = none ↔ ∃ key ∈ k :: rest, key.HoldsLong := by
      simp only [mapM_keyText?_eq_none_iff, sortKeys, (List.mergeSort_perm _ _).mem_iff]
    cases hclash : clash? (k :: rest) with
    | some clash =>
      have hmixed : ¬ (k :: rest).Pairwise Datum.Comparable := by
        rw [← clash?_eq_none_iff, hclash]
        exact Option.some_ne_none clash
      simp [hclash, hmixed]
    | none =>
      have hordered := (clash?_eq_none_iff (k :: rest)).1 hclash
      cases htexts : (sortKeys (k :: rest)).mapM keyText? with
      | some texts =>
        have hshort : ¬ ∃ key ∈ k :: rest, key.HoldsLong := by
          rw [← hshown, htexts]
          exact Option.some_ne_none texts
        simpa [hclash, htexts, hordered] using hshort
      | none =>
        have hlong := hshown.1 htexts
        simpa [hclash, htexts, hordered, imp_iff_not_or] using hlong

theorem checkKeys_eq_ok_iff {keys : List Datum} {u : Unit} :
    checkKeys keys = .ok u ↔ unknownKeys keys = [] := by
  rw [checkKeys, show (keys.filter (!isKnown ·)) = unknownKeys keys from rfl]
  cases unknownKeys keys with
  | nil => simp
  | cons k rest =>
    refine iff_of_false (fun h => ?_) (List.cons_ne_nil k rest)
    split at h
    · contradiction
    · split at h
      · cases h
      · split at h <;> cases h

/-! ## Settings of the right types -/

/-- A field has the value, or it is not there and the value is the default. -/
def Gives {α : Type} (datum : α → Datum) (field : Option Datum) (default a : α) : Prop :=
  match field with
  | none => a = default
  | some d => d = datum a

/-- The names of modules as a datum. -/
def namesDatum (names : List String) : Datum := .list (names.map .str)

variable {s s' : Settings} {field : Option Datum}

theorem texts?_eq_some_iff {items : List Datum} {names : List String} :
    texts? items = some names ↔ items = names.map .str := by
  induction items generalizing names with
  | nil => cases names <;> simp [texts?]
  | cons d items ih => cases d <;> cases names <;> simp [texts?, ih, and_comm]

theorem takeModules_eq_ok_iff : takeModules field s = .ok s' ↔
    ∃ names, Gives namesDatum field s.modules names ∧ s' = { s with modules := names } := by
  unfold takeModules
  split
  · simp only [Gives, exists_eq_left, Except.ok.injEq]
    exact eq_comm
  · rename_i items
    have hitems (names : List String) : Gives namesDatum (some (.list items)) s.modules names ↔
        texts? items = some names := by
      simp [Gives, namesDatum, texts?_eq_some_iff]
    simp only [hitems]
    cases texts? items <;> simp [eq_comm]
  · rename_i d hd
    have hnone (names : List String) : d ≠ namesDatum names := fun h => hd _ (by rw [h]; rfl)
    simp [Gives, hnone]

theorem settles_takeModules : Settles (takeModules field s) := by
  unfold takeModules
  split
  · simp
  · split <;> simp
  · simp

theorem refuse_ne_ok {α : Type} {shown : Option String} {problem : String → Problem} {a : α} :
    refuse shown problem ≠ .ok a := by
  cases shown <;> simp [refuse]

theorem takeDepth_eq_ok_iff : takeDepth field s = .ok s' ↔
    ∃ n, Gives .int field s.maxDepth n ∧ s' = { s with maxDepth := n } := by
  unfold takeDepth
  split
  · simp only [Gives, exists_eq_left, Except.ok.injEq]
    exact eq_comm
  · simp [Gives, eq_comm]
  · rename_i d hd
    have hnone (n : Int) : d ≠ .int n := fun h => hd n (by rw [h])
    simp [Gives, hnone, refuse_ne_ok]

theorem settles_takeDepth :
    Settles (takeDepth field s) ↔ ∀ d ∈ field, d.HoldsLong → ∃ n, d = .int n := by
  unfold takeDepth
  split
  · simp
  · simp
  · rename_i d hd
    have hnone : ¬ ∃ n, d = .int n := fun ⟨n, hn⟩ => hd n (by rw [hn])
    rw [settles_refuse, Ne, Datum.show?_eq_none_iff]
    simp [hnone]

theorem takeLevel_eq_ok_iff : takeLevel field s = .ok s' ↔
    ∃ l, Gives .str field s.logLevel l ∧ s' = { s with logLevel := l } := by
  unfold takeLevel
  split
  · simp only [Gives, exists_eq_left, Except.ok.injEq]
    exact eq_comm
  · simp [Gives, eq_comm]
  · rename_i d hd
    have hnone (l : String) : d ≠ .str l := fun h => hd l (by rw [h])
    simp [Gives, hnone, refuse_ne_ok]

theorem settles_takeLevel : Settles (takeLevel field s) ↔ ∀ d ∈ field, ¬ d.HoldsLong := by
  unfold takeLevel
  split
  · simp
  · rename_i l
    have hl : ¬ (Datum.str l).HoldsLong := by
      rw [Datum.holdsLong_iff]
      simp
    simpa using hl
  · rw [settles_refuse, Ne, Datum.show?_eq_none_iff]
    simp

theorem unknown_eq_nil_iff {names : List String} :
    Standard.unknown names = [] ↔ ∀ name ∈ names, name ∈ Standard.names := by
  simp [Standard.unknown]

theorem settles_ofSettings :
    Settles (ofSettings s) ↔ ((∀ name ∈ s.modules, name ∈ Standard.names) →
      -(Decimal.power Decimal.plainLimit : Int) < s.maxDepth) := by
  unfold ofSettings
  rw [← unknown_eq_nil_iff]
  split_ifs with hmodules hdepth
  · refine iff_of_true ?_ fun _ => by omega
    split <;> simp
  · have habs : s.maxDepth.natAbs < Decimal.power Decimal.plainLimit ↔
        -(Decimal.power Decimal.plainLimit : Int) < s.maxDepth := by omega
    unfold Decimal.ofInt?
    split_ifs with hlt
    · exact iff_of_true (settles_error.2 ⟨_, rfl⟩) fun _ => habs.1 hlt
    · refine iff_of_false (by simp) fun h => hlt ?_
      exact habs.2 (h hmodules)
  · exact iff_of_true (settles_error.2 ⟨_, rfl⟩) fun h => absurd h hmodules

/-! ## Data -/

/-- Settings cannot be read from a mapping and the problem with it cannot be told either: a key of no setting
cannot be compared with another one or cannot be shown, or else a depth or a level of the wrong type cannot be
shown, or else a depth is too far below zero to be shown. -/
inductive BreaksAt (keys values : List Datum) : Prop
  | mixedKeys : ¬ (unknownKeys keys).Pairwise Datum.Comparable → BreaksAt keys values
  | longKey {k : Datum} : k ∈ unknownKeys keys → k.HoldsLong → BreaksAt keys values
  | depth {names : List String} {d : Datum} : unknownKeys keys = [] →
      Gives namesDatum (field? "modules" keys values) standard.modules names →
      d ∈ field? "max_depth" keys values → d.HoldsLong → (¬ ∃ n, d = .int n) → BreaksAt keys values
  | level {names : List String} {n : Int} {d : Datum} : unknownKeys keys = [] →
      Gives namesDatum (field? "modules" keys values) standard.modules names →
      Gives .int (field? "max_depth" keys values) standard.maxDepth n →
      d ∈ field? "log_level" keys values → d.HoldsLong → BreaksAt keys values
  | negativeDepth {names : List String} {n : Int} {l : String} : unknownKeys keys = [] →
      Gives namesDatum (field? "modules" keys values) standard.modules names →
      Gives .int (field? "max_depth" keys values) standard.maxDepth n →
      Gives .str (field? "log_level" keys values) standard.logLevel.name l →
      (∀ name ∈ names, name ∈ Standard.names) → n ≤ -(Decimal.power Decimal.plainLimit : Int) →
      BreaksAt keys values

/-- Settings cannot be read from the datum, and what is wrong with it cannot be told. -/
def Breaks : Datum → Prop
  | .mapping keys values => BreaksAt keys values
  | _ => False

theorem settles_ofDatum_iff (d : Datum) : Settles (ofDatum d) ↔ ¬ Breaks d := by
  cases d with
  | mapping keys values =>
    rw [ofDatum, Breaks]
    simp only [settles_bind, settles_checkKeys, settles_takeDepth, settles_takeLevel, settles_ofSettings,
      settles_takeModules, checkKeys_eq_ok_iff, takeModules_eq_ok_iff, takeDepth_eq_ok_iff,
      takeLevel_eq_ok_iff, forall_exists_index, and_imp, true_and]
    constructor
    · rintro ⟨⟨hordered, hshown⟩, hfields⟩ hbreaks
      cases hbreaks with
      | mixedKeys h => exact h hordered
      | longKey hk hlong => exact hshown _ hk hlong
      | depth hkeys hmodules hd hlong hint =>
        exact hint ((hfields () hkeys _ _ hmodules rfl).1 _ hd hlong)
      | level hkeys hmodules hdepth hd hlong =>
        exact ((hfields () hkeys _ _ hmodules rfl).2 _ _ hdepth rfl).1 _ hd hlong
      | negativeDepth hkeys hmodules hdepth hlevel hnames hn =>
        have hlt := ((hfields () hkeys _ _ hmodules rfl).2 _ _ hdepth rfl).2 _ _ hlevel rfl hnames
        exact Int.not_lt.2 hn hlt
    · intro hno
      refine ⟨⟨?_, fun k hk hlong => hno (.longKey hk hlong)⟩, ?_⟩
      · by_contra hmixed
        exact hno (.mixedKeys hmixed)
      rintro - hkeys _ names hmodules rfl
      refine ⟨fun d hd hlong => ?_, ?_⟩
      · by_contra hint
        exact hno (.depth hkeys hmodules hd hlong hint)
      rintro _ n hdepth rfl
      refine ⟨fun d hd hlong => hno (.level hkeys hmodules hdepth hd hlong), ?_⟩
      rintro _ l hlevel rfl hnames
      by_contra hn
      exact hno (.negativeDepth hkeys hmodules hdepth hlevel hnames (Int.not_lt.1 hn))
  | _ => simp [ofDatum, Breaks]

/-- All names of levels are in upper case. -/
theorem name_mem (l : LogLevel) : l.name ∈ ["DEBUG", "INFO", "WARNING", "ERROR", "CRITICAL"] := by
  cases l <;> decide

end Config

/-! ## Commands -/

namespace Command

open Scriptlet.Config

/-- The file that a command takes its settings from: the one that is named, or else the one that the
environment names. -/
def configPath? (w : World) (config : Option String) : Option String :=
  (config.filter (· ≠ "")).or ((w.host.env.get? variableName).filter (· ≠ ""))

theorem settings_of_configPath? {w : World} {config : Option String} {path : String}
    (h : configPath? w config = some path) : settings w config = load w.reader w.files path := by
  unfold settings ofEnvironment
  rcases Option.or_eq_some_iff.1 h with hnamed | ⟨hnone, henv⟩
  · obtain ⟨rfl, hne⟩ := Option.filter_eq_some_iff.1 hnamed
    simp [of_decide_eq_true hne]
  · obtain ⟨henv, hne⟩ := Option.filter_eq_some_iff.1 henv
    have hempty : ∀ name ∈ config, name = "" := by simpa using hnone
    have hused : path ≠ "" := of_decide_eq_true hne
    cases config with
    | none => simp [henv, hused]
    | some name => simp [hempty name rfl, henv, hused]

/-- A file that is no text, or text on which the reader of documents raises an exception, or text whose
document breaks the reading of settings. -/
@[mk_iff]
inductive BreaksIn (reader : Yaml.Reader) (files : Files) (path : String) : Prop
  | undecodable : files path = some .undecodable → BreaksIn reader files path
  | raised {text kind message : String} : files path = some (.text text) →
      reader text = .error (.raised kind message) → BreaksIn reader files path
  | document {text : String} {d : Datum} : files path = some (.text text) → reader text = .ok d →
      Breaks d → BreaksIn reader files path

theorem settles_load {reader : Yaml.Reader} {files : Files} {path : String} :
    Settles (load reader files path) ↔ ¬ BreaksIn reader files path := by
  rw [breaksIn_iff]
  unfold load
  cases files path with
  | none => simp
  | some content =>
    cases content with
    | undecodable => simp
    | text s =>
      show Settles (ofText reader path s) ↔ _
      unfold ofText
      cases hread : reader s with
      | error defect => cases defect <;> simp [hread]
      | ok d =>
        have hdatum := settles_ofDatum_iff d
        cases d with
        | null => simp [hread, Breaks]
        | _ => simpa [hread, Breaks] using hdatum

/-- Data give settings that are all in range or a problem that can be told, exactly if they do not break the
reading. Whatever reads its documents, a command whose settings cannot be used tells the problem and ends with
the exit status one, exactly if the file with its settings does not break the reading. -/
theorem settings_settle_iff (d : Datum) (w : World) (args : List String) :
    ((∃ c : Config, ofDatum d = .ok c ∧ (∀ m ∈ c.modules, m ∈ Standard.names) ∧ 1 ≤ c.maxDepth ∧
        c.logLevel.name ∈ ["DEBUG", "INFO", "WARNING", "ERROR", "CRITICAL"]) ∨
      (∃ p, ofDatum d = .error (.problem p)) ↔ ¬ Breaks d) ∧
    ∀ invocation path, ofArguments args = .ok invocation →
      configPath? w invocation.config = some path → (∀ c, load w.reader w.files path ≠ .ok c) →
      ((∃ p, load w.reader w.files path = .error (.problem p) ∧
          run w args = .finished ⟨1, "", "Error: " ++ p.message ++ "\n"⟩) ↔
        ¬ BreaksIn w.reader w.files path) := by
  refine ⟨?_, fun invocation path hargs hpath hbad => ?_⟩
  · rw [← settles_ofDatum_iff]
    cases hresult : ofDatum d with
    | ok c =>
      have hmodules := unknown_eq_nil_iff.1 c.modules_standard
      simpa using ⟨hmodules, c.maxDepth_pos, by simpa using name_mem c.logLevel⟩
    | error o => simp
  · rw [← settles_load, run, hargs]
    simp only
    rw [settings_of_configPath? hpath]
    cases hresult : load w.reader w.files path with
    | ok c => exact absurd hresult (hbad c)
    | error o => cases o <;> simp [trouble]

/-- A host with two files of settings: one names a module outside of a list, and the other one has keys of two
types. -/
def unsettled : World where
  files
    | "flat.yaml" => some (.text "modules: os\n")
    | "mixed.yaml" => some (.text "0: x\nb: y\n")
    | _ => none
  host := {}
  reader
    | "modules: os\n" => .ok (.mapping [.str "modules"] [.str "os"])
    | "0: x\nb: y\n" => .ok (.mapping [.int 0, .str "b"] [.str "x", .str "y"])
    | _ => .error (.malformed "unknown")

/-- A command with the first of these files tells the problem, and one with the other file does not. -/
theorem settings_settle_iff_unsettled :
    run unsettled ["--config", "flat.yaml", "modules"] =
      .finished ⟨1, "", "Error: modules must be a list of module names\n"⟩ ∧
    BreaksIn unsettled.reader unsettled.files "mixed.yaml" ∧
    ¬ ∃ p, load unsettled.reader unsettled.files "mixed.yaml" = .error (.problem p) ∧
      run unsettled ["--config", "mixed.yaml", "modules"] =
        .finished ⟨1, "", "Error: " ++ p.message ++ "\n"⟩ := by
  have hflatArgs : ofArguments ["--config", "flat.yaml", "modules"] =
      .ok ⟨some "flat.yaml", false, .modules⟩ := by decide +kernel
  have hflat : load unsettled.reader unsettled.files "flat.yaml" =
      .error (.problem .modulesNotNames) := rfl
  have hsettled : ¬ BreaksIn unsettled.reader unsettled.files "flat.yaml" := by
    rw [← settles_load, hflat]
    simp
  have hmixedArgs : ofArguments ["--config", "mixed.yaml", "modules"] =
      .ok ⟨some "mixed.yaml", false, .modules⟩ := by decide +kernel
  have hmixed : load unsettled.reader unsettled.files "mixed.yaml" =
      .error (.mixedKeys "str" "int") := rfl
  have hbreaks : BreaksIn unsettled.reader unsettled.files "mixed.yaml" := by
    by_contra hnot
    rw [← settles_load, hmixed] at hnot
    simp at hnot
  refine ⟨?_, hbreaks, fun htold => ?_⟩
  · obtain ⟨p, hp, htold⟩ :=
      ((settings_settle_iff .null unsettled _).2 _ _ hflatArgs rfl (by simp [hflat])).2 hsettled
    cases hp
    exact htold
  · exact ((settings_settle_iff .null unsettled _).2 _ _ hmixedArgs rfl (by simp [hmixed])).1 htold hbreaks

/-- A number and a text have no order, so these two keys are not even told. -/
theorem ofDatum_mixedKeys :
    ofDatum (.mapping [.int 0, .str "b"] [.str "x", .str "y"]) = .error (.mixedKeys "str" "int") := by
  rfl

end Command

end Scriptlet
