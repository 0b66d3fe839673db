import Scriptlet.Eval.Interpreter
import Scriptlet.Proofs.NameFailures
import Scriptlet.Proofs.Scopes

/-!
# Names are resolved in the text

What a name stands for in a run can be read off the text of the program: it is what the latest statement
bound that declares the name, in the innermost list of statements around the name that has such a
statement before it. A block that is closed is no list around the name, and a binding is not before its
own right-hand side.

* `declaration?`: resolution of a name in the lists of statements around it.
* `Program.occurrences`: the names of a program that a run may look up, each with these lists.
* `Eval.Step.faithful`: along a run the environment holds what the statements of these lists bound.
* `Interpreter.runProgram_lookups`: what this says of a run.
* `Interpreter.runProgram_lookups_elsewhere`: failures of the same kind that come from elsewhere.
-/

namespace Scriptlet

/-! ## Resolution -/

/-- The name that a statement declares. -/
def Node.declares? : Node → Option String
  | .binding _ n _ => some n
  | .use _ _ symbol newName => some (boundName symbol newName)
  | _ => none

/-- The declaration of a name in lists of statements that are given from the inside out, each with its
latest statement in front. -/
def declaration? {α : Type} (text : α → Node) (name : String) (scopes : List (List α)) : Option α :=
  scopes.findSome? fun list => list.find? fun a => (text a).declares? == some name

/-- Which declaration it is depends on the text alone. -/
theorem map_declaration? {α : Type} (text : α → Node) (name : String) (scopes : List (List α)) :
    (declaration? text name scopes).map text =
      declaration? id name (scopes.map fun list => list.map text) := by
  induction scopes with
  | nil => rfl
  | cons list scopes ih =>
    unfold declaration? at ih ⊢
    rw [List.map_cons, List.findSome?_cons, List.findSome?_cons, List.find?_map]
    have htext : (fun e => (id e).declares? == some name) ∘ text =
        fun a => (text a).declares? == some name := rfl
    rw [htext]
    cases list.find? fun a => (text a).declares? == some name with
    | none => exact ih
    | some a => rfl

/-! ## Occurrences -/

/-- A name in a program, with the statements before it in the lists around it. -/
structure Occurrence where
  role : Role
  span : Option Span
  name : String
  scopes : List (List Node)

namespace Node

/-- The name of a callee. -/
def calleeOccurrences (scopes : List (List Node)) : Node → List Occurrence
  | .name span n => [⟨.callee, span, n, scopes⟩]
  | _ => []

mutual

/-- The names that an expression looks up. -/
def occurrences (scopes : List (List Node)) : Node → List Occurrence
  | .name span n => [⟨.value, span, n, scopes⟩]
  | .unary _ _ a => occurrences scopes a
  | .binary _ a _ b | .index _ a b => occurrences scopes a ++ occurrences scopes b
  | .tuple _ es => occurrencesAll scopes es
  | .call _ f es => calleeOccurrences scopes f ++ occurrencesAll scopes es
  | .literal _ _ | .path _ _ _ | .binding _ _ _ | .expression _ _ | .block _ _ | .use _ _ _ _
  | .program _ _ | .blank _ _ => []

/-- The names that several expressions look up. -/
def occurrencesAll (scopes : List (List Node)) : List Node → List Occurrence
  | [] => []
  | e :: es => occurrences scopes e ++ occurrencesAll scopes es

end

mutual

/-- The names that a statement looks up. -/
def statementOccurrences (scopes : List (List Node)) : Node → List Occurrence
  | .expression _ e | .binding _ _ e => occurrences scopes e
  | .block _ es => statementsOccurrences scopes [] es
  | _ => []

/-- The names that a list of statements looks up after the statements `earlier` of the list. -/
def statementsOccurrences (outer : List (List Node)) (earlier : List Node) :
    List Node → List Occurrence
  | [] => []
  | e :: es =>
    statementOccurrences (earlier :: outer) e ++ statementsOccurrences outer (e :: earlier) es

end

end Node

/-- The names that a program looks up. -/
def Program.occurrences (p : Program) : List Occurrence :=
  Node.statementsOccurrences [] [] p.statements

-- After `x = 1` and a block with `x = 2` in it, `x` stands for the first of these bindings.
example :
    let first : Node := .binding none "x" (.literal none (.int 1))
    let second : Node := .binding none "x" (.literal none (.int 2))
    let p : Program := ⟨none, [first, .block none [second], .expression none (.name none "x")]⟩
    (p.occurrences.map fun o => declaration? id o.name o.scopes) = [some first] := rfl

namespace Point

variable {σ : Type}

/-- The statements before a point in the lists around it. -/
def scopes (q : Point σ) : List (List Node) := q.frames.map fun f => f.map Done.statement

/-- The names that are looked up at a point and below. -/
def occurrences (q : Point σ) : List Occurrence :=
  match q.task with
  | .statements _ es =>
    Node.statementsOccurrences q.scopes.tail (q.scopes.headD []) es
  | .statement e => e.statementOccurrences q.scopes
  | .expression _ e => e.occurrences q.scopes
  | .expressions es => Node.occurrencesAll q.scopes es

end Point

namespace Eval

variable {σ : Type}

open Result

theorem LooksUp.mem_occurrences {s : Setting σ} {q : Point σ} {role : Role} {span : Option Span}
    {name : String} (h : LooksUp s q role span name) :
    ⟨role, span, name, q.scopes⟩ ∈ q.occurrences := by
  cases h with
  | value => simp [Point.occurrences, Node.occurrences, Point.scopes]
  | callee => simp [Point.occurrences, Node.occurrences, Node.calleeOccurrences, Point.scopes]

theorem Step.occurrences_subset {s : Setting σ} {a b : Point σ} (h : Step s a b) :
    b.occurrences ⊆ a.occurrences := by
  cases h <;> simp [Point.occurrences, Point.scopes, Node.statementsOccurrences,
    Node.statementOccurrences, Node.occurrences, Node.occurrencesAll]

theorem Reaches.occurrences_subset {s : Setting σ} {a b : Point σ} (h : Reaches s a b) :
    b.occurrences ⊆ a.occurrences := by
  induction h with
  | refl => exact List.Subset.refl _
  | tail _ hstep ih => exact List.Subset.trans hstep.occurrences_subset ih

/-! ## The environment holds what the statements bound -/

/-- A statement bound what its text says: the value of a binding, the native function of a `use`. -/
def Done.Sound (s : Setting σ) (d : Done σ) : Prop :=
  match d.statement with
  | .binding _ _ _ => ∃ v, d.bound = some (.value v)
  | .use _ module symbol _ =>
    ∃ n, s.registry.find? module symbol = some n ∧ d.bound = some (.native n)
  | _ => True

/-- A scope holds what the statements of a list bound, the latest one of each name. -/
structure Agree (s : Setting σ) (f : Frame σ) (scope : Scope σ) : Prop where
  sound : ∀ d ∈ f, Done.Sound s d
  get?_eq : ∀ name, scope.get? name =
    (f.find? fun d => d.statement.declares? == some name).bind Done.bound

theorem agree_nil (s : Setting σ) : Agree s [] ([] : Scope σ) := ⟨nofun, fun _ => rfl⟩

theorem Agree.skip {s : Setting σ} {f : Frame σ} {scope : Scope σ} (h : Agree s f scope) {d : Done σ}
    (hd : d.statement.declares? = none) (hsound : Done.Sound s d) : Agree s (d :: f) scope := by
  refine ⟨List.forall_mem_cons.2 ⟨hsound, h.sound⟩, fun name => ?_⟩
  rw [List.find?_cons_of_neg (by rw [hd]; exact Bool.false_ne_true), h.get?_eq]

theorem Agree.put {s : Setting σ} {f : Frame σ} {scope : Scope σ} (h : Agree s f scope) {d : Done σ}
    {name : String} {b : Binding σ} (hd : d.statement.declares? = some name)
    (hb : d.bound = some b) (hsound : Done.Sound s d) : Agree s (d :: f) (scope.put name b) := by
  refine ⟨List.forall_mem_cons.2 ⟨hsound, h.sound⟩, fun other => ?_⟩
  by_cases hname : other = name
  · rw [hname, Assoc.get?_put_self, List.find?_cons_of_pos (by rw [hd]; exact beq_self_eq_true _)]
    exact hb.symm
  · rw [Assoc.get?_put_of_ne _ _ hname, List.find?_cons_of_neg, h.get?_eq]
    rw [hd]
    simpa using Ne.symm hname

/-- A declaration that was executed bound something. -/
theorem Done.Sound.isSome {s : Setting σ} {d : Done σ} {name : String} (h : Done.Sound s d)
    (hd : d.statement.declares? = some name) : ∃ b, d.bound = some b := by
  obtain ⟨e, bound⟩ := d
  cases e with
  | binding =>
    obtain ⟨v, hv⟩ := h
    exact ⟨_, hv⟩
  | use =>
    obtain ⟨n, -, hn⟩ := h
    exact ⟨_, hn⟩
  | _ => cases hd

/-- Looking a name up is resolving it. -/
theorem lookupIn_eq {s : Setting σ} {F : List (Frame σ)} {scopes : List (Scope σ)}
    (h : List.Forall₂ (Agree s) F scopes) (name : String) :
    Environment.lookupIn name scopes = (declaration? Done.statement name F).bind Done.bound := by
  induction h with
  | nil => rfl
  | @cons f scope F scopes hagree _ ih =>
    unfold Environment.lookupIn declaration?
    rw [hagree.get?_eq, List.findSome?_cons]
    cases hfind : f.find? fun d => d.statement.declares? == some name with
    | none => exact ih
    | some d =>
      have hfound := List.find?_some hfind
      have hd : d.statement.declares? = some name := eq_of_beq hfound
      obtain ⟨b, hb⟩ := (hagree.sound d (List.mem_of_find?_eq_some hfind)).isSome hd
      simp only [Option.bind_some, hb]

/-- The declaration of a name is one that was executed. -/
theorem sound_of_declaration? {s : Setting σ} {F : List (Frame σ)} {scopes : List (Scope σ)}
    (h : List.Forall₂ (Agree s) F scopes) {name : String} {d : Done σ}
    (hd : declaration? Done.statement name F = some d) :
    Done.Sound s d ∧ d.statement.declares? = some name := by
  induction h with
  | nil => cases hd
  | @cons f scope F scopes hagree _ ih =>
    unfold declaration? at hd
    rw [List.findSome?_cons] at hd
    cases hfind : f.find? fun d => d.statement.declares? == some name with
    | none =>
      rw [hfind] at hd
      exact ih hd
    | some d' =>
      rw [hfind] at hd
      cases hd
      have hfound := List.find?_some hfind
      exact ⟨hagree.sound d (List.mem_of_find?_eq_some hfind), eq_of_beq hfound⟩

/-- What the execution of a statement does to the environment. -/
theorem execute_env {s : Setting σ} {e : Node} {v : Value} {m m' : Machine σ}
    (h : execute s e m = .ok v m') :
    Done.Sound s ⟨e, bound? s m e⟩ ∧
      ((e.declares? = none ∧ m'.env = m.env) ∨
        ∃ name b, e.declares? = some name ∧ bound? s m e = some b ∧ m'.env = m.env.bind name b) := by
  cases e with
  | expression span e =>
    rw [execute] at h
    exact ⟨trivial, .inl ⟨rfl, ((evaluate_keeps s id e false).of_ok h).2⟩⟩
  | binding span name e =>
    rw [execute] at h
    cases he : evaluate s false e m with
    | error stop m₁ =>
      rw [bind_error he] at h
      cases h
    | ok w m₁ =>
      rw [bind_ok he] at h
      cases h
      have hbound : bound? s m (.binding span name e) = some (.value w) := by
        simp only [bound?, he]
      refine ⟨⟨w, hbound⟩, .inr ⟨name, .value w, rfl, hbound, ?_⟩⟩
      have henv : m₁.env = m.env := ((evaluate_keeps s id e false).of_ok he).2
      rw [← henv]
  | block span es =>
    rw [execute] at h
    have hblock : Keeps id (nested s.limits span (inScope (executeAll s .unit es))) :=
      (executeAll_keeps s es .unit).inScope.nested s.limits span
    exact ⟨trivial, .inl ⟨rfl, (hblock.of_ok h).2⟩⟩
  | use span module symbol newName =>
    rw [execute] at h
    cases hn : resolve s.registry span module symbol m with
    | error stop m₁ =>
      rw [bind_error hn] at h
      cases h
    | ok n m₁ =>
      rw [bind_ok hn] at h
      obtain ⟨hfind, rfl⟩ := find?_of_resolve hn
      cases h
      have hbound : bound? s m₁ (.use span module symbol newName) = some (.native n) := by
        simp only [bound?, hfind, Option.map_some]
      exact ⟨⟨n, hfind, hbound⟩, .inr ⟨_, .native n, rfl, hbound, rfl⟩⟩
  | _ =>
    rw [execute] at h
    cases h

/-- The environment of a point holds what the statements before it bound, and the lines are those of the
run. -/
structure Faithful (s : Setting σ) (lines : List String) (q : Point σ) : Prop where
  lines_eq : q.machine.lines = lines
  agree : List.Forall₂ (Agree s) q.frames (q.machine.env.inner :: q.machine.env.outer)

/-- What a name stands for, by the text. -/
theorem Faithful.lookup_cases {s : Setting σ} {lines : List String} {q : Point σ}
    (h : Faithful s lines q) (name : String) :
    match declaration? id name q.scopes with
    | none => q.machine.env.lookup name = none
    | some (.binding _ _ _) =>
      ∃ v, (declaration? Done.statement name q.frames).bind Done.bound = some (.value v) ∧
        q.machine.env.lookup name = some (.value v)
    | some (.use _ module symbol _) =>
      ∃ n, s.registry.find? module symbol = some n ∧
        q.machine.env.lookup name = some (.native n)
    | some _ => False := by
  have hlookup := lookupIn_eq h.agree name
  have htext : (declaration? Done.statement name q.frames).map Done.statement =
      declaration? id name q.scopes :=
    map_declaration? _ _ _
  cases hd : declaration? Done.statement name q.frames with
  | none =>
    rw [hd] at htext hlookup
    rw [← htext]
    exact hlookup
  | some d =>
    obtain ⟨hsound, hdeclares⟩ := sound_of_declaration? h.agree hd
    rw [hd] at htext hlookup
    rw [← htext]
    obtain ⟨e, bound⟩ := d
    cases e with
    | binding =>
      obtain ⟨v, rfl⟩ := hsound
      exact ⟨v, rfl, hlookup⟩
    | use =>
      obtain ⟨n, hfind, rfl⟩ := hsound
      exact ⟨n, hfind, hlookup⟩
    | _ => cases hdeclares

/-- Other work in the same environment. -/
theorem Faithful.same {s : Setting σ} {lines : List String} {F : List (Frame σ)} {t t' : Task}
    {m m' : Machine σ} (h : Faithful s lines ⟨F, t, m⟩) (hlines : m'.lines = m.lines)
    (henv : m'.env = m.env) : Faithful s lines ⟨F, t', m'⟩ := by
  refine ⟨hlines.trans h.lines_eq, ?_⟩
  change List.Forall₂ (Agree s) F (m'.env.inner :: m'.env.outer)
  rw [henv]
  exact h.agree

theorem Step.faithful {s : Setting σ} {lines : List String} {a b : Point σ} (h : Step s a b)
    (ha : Faithful s lines a) : Faithful s lines b := by
  cases h with
  | first => exact ha.same rfl rfl
  | @rest f F last v e es m m' hok =>
    refine ⟨((execute_keeps s e).of_ok hok).1.trans ha.lines_eq, ?_⟩
    cases ha.agree with
    | cons hagree hrest =>
      obtain ⟨hsound, ⟨hnone, henv⟩ | ⟨name, b, hname, hb, henv⟩⟩ := execute_env hok
      · change List.Forall₂ _ _ (m'.env.inner :: m'.env.outer)
        rw [henv]
        exact .cons (hagree.skip hnone hsound) hrest
      · change List.Forall₂ _ _ (m'.env.inner :: m'.env.outer)
        rw [henv]
        exact .cons (hagree.put hname hb hsound) hrest
  | evaluated => exact ha.same rfl rfl
  | assigned => exact ha.same rfl rfl
  | block hroom => exact ⟨ha.lines_eq, .cons (agree_nil s) ha.agree⟩
  | operand hroom => exact ha.same rfl rfl
  | left henter =>
    cases henter with
    | chained => exact ha.same rfl rfl
    | level hroom => exact ha.same rfl rfl
  | right henter hleft hundecided =>
    obtain ⟨hlines, henv⟩ := (evaluate_keeps s id _ true).of_ok hleft
    cases henter with
    | chained => exact ha.same hlines henv
    | level hroom => exact ha.same hlines henv
  | elements hroom => exact ha.same rfl rfl
  | object hroom => exact ha.same rfl rfl
  | position hroom hobject =>
    obtain ⟨hlines, henv⟩ := (evaluate_keeps s id _ false).of_ok hobject
    exact ha.same hlines henv
  | arguments hroom hcallee => exact ha.same rfl rfl
  | head => exact ha.same rfl rfl
  | tail hok =>
    obtain ⟨hlines, henv⟩ := (evaluate_keeps s id _ false).of_ok hok
    exact ha.same hlines henv

theorem Reaches.faithful {s : Setting σ} {lines : List String} {a b : Point σ} (h : Reaches s a b)
    (ha : Faithful s lines a) : Faithful s lines b := by
  induction h with
  | refl => exact ha
  | tail _ hstep ih => exact hstep.faithful ih

end Eval

/-! ## Runs -/

namespace Interpreter

variable {σ : Type}

open Eval

/-- The point at which a run begins. -/
def beginning (p : Program) (source : Option String) (natives : σ) : Point σ :=
  ⟨[[]], .statements .unit p.statements,
    start source {} natives [.started p.statements.length]⟩

theorem stop?_beginning (i : Interpreter σ) (p : Program) (source : Option String) (natives : σ)
    (stop : Stop) : stop? i.setting (beginning p source natives) = some stop ↔
      (i.runProgram p source natives).result = .error stop := by
  rw [beginning, stop?, runProgram]
  cases executeAll i.setting .unit p.statements
      (start source {} natives [.started p.statements.length]) with
  | ok v m => constructor <;> intro h <;> cases h
  | error stop' m =>
    exact ⟨fun h => congrArg Except.error (Option.some.inj h),
      fun h => congrArg some (Except.error.inj h)⟩

/-- What happens at a name that a run looks up is decided by the statements before it in the lists around
it. If none declares the name, the run ends there. If a binding does, the name stands for the value that
the binding computed, and the run ends if the name is called. If a `use` does, the name stands for the
native function, and the run ends if a value is asked for. A run that ends with one of these failures
has come to such a name, or a native function answered with the failure. -/
theorem runProgram_lookups (i : Interpreter σ) (p : Program) (source : Option String) (natives : σ) :
    let o := i.runProgram p source natives
    let fails (span : Option Span) (cause : Cause) : Prop :=
      o.result = .error (.failure (.atSpan (sourceLines source) span cause))
    (∀ q role span name, Reaches i.setting (beginning p source natives) q →
      LooksUp i.setting q role span name →
      ⟨role, span, name, q.scopes⟩ ∈ p.occurrences ∧
      match declaration? id name q.scopes with
      | none => fails span (.undefinedName name)
      | some (.binding _ _ _) =>
        ∃ v, (declaration? Done.statement name q.frames).bind Done.bound = some (.value v) ∧
          (role = .value → ∀ c, evaluate i.setting c (.name span name) q.machine = .ok v q.machine) ∧
          (role = .callee → fails span (.notCallable name v.kind))
      | some (.use _ module symbol _) =>
        ∃ n, i.registry.find? module symbol = some n ∧
          (role = .callee → callee i.registry (.name span name) q.machine = .ok n q.machine) ∧
          (role = .value → fails span (.notAValue name n.name))
      | some _ => False) ∧
    ∀ f, o.result = .error (.failure f) → f.cause.code ∈ ["E201", "E304", "E305"] →
      ∃ q, Reaches i.setting (beginning p source natives) q ∧ Origin i.setting f q := by
  intro o fails
  have hbeginning : Faithful i.setting (sourceLines source) (beginning p source natives) :=
    ⟨rfl, .cons (agree_nil _) .nil⟩
  refine ⟨fun q role span name hreach hlooks => ⟨?_, ?_⟩, fun f hresult hcode => ?_⟩
  · exact hreach.occurrences_subset hlooks.mem_occurrences
  · have hq := hreach.faithful hbeginning
    have hfails {cause : Cause}
        (hfault : fault? role name (q.machine.env.lookup name) = some cause) : fails span cause := by
      have hstop := hreach.stops (hlooks.stops hfault)
      rw [hq.lines_eq] at hstop
      exact (stop?_beginning i p source natives _).1 hstop
    have hcases := hq.lookup_cases name
    cases hd : declaration? id name q.scopes with
    | none =>
      rw [hd] at hcases
      exact hfails (by rw [hcases]; rfl)
    | some e =>
      rw [hd] at hcases
      cases e with
      | binding =>
        obtain ⟨v, hv, hlookup⟩ := hcases
        refine ⟨v, hv, fun _ c => evaluate_name hlooks.room hlookup c span, ?_⟩
        rintro rfl
        exact hfails (by rw [hlookup]; rfl)
      | use =>
        obtain ⟨n, hfind, hlookup⟩ := hcases
        refine ⟨n, hfind, fun _ => callee_name hlookup i.registry span, ?_⟩
        rintro rfl
        exact hfails (by rw [hlookup]; rfl)
      | _ => exact hcases
  · have hstop := (stop?_beginning i p source natives _).2 hresult
    exact executeAll_traced (isLookup_of_code hcode) [] [] p.statements .unit _ hstop

/-- A `use` in a block that is closed does not count: the name still stands for a value, which cannot be
called. -/
theorem runProgram_lookups_closedBlock :
    let i : Interpreter Nat := ⟨[("counter", [("next", counter)])], ⟨9, 1000⟩, 0, []⟩
    let p : Program := ⟨none, [.binding none "x" (.literal none (.int 1)),
      .block none [.use none "counter" "next" (some "x")],
      .expression none (.call none (.name none "x") [])]⟩
    (i.runProgram p none 0).result =
      .error (.failure ⟨.notCallable "x" .integer, none, none⟩) := by
  intro i p
  have hreach : Reaches i.setting (beginning p none 0) _ :=
    .tail (.tail (.tail (.tail .refl (.rest rfl)) (.rest rfl)) .first) .evaluated
  obtain ⟨-, hoccurrence⟩ := (runProgram_lookups i p none 0).1 _ .callee none "x" hreach
    (.callee ⟨by decide, by decide⟩)
  obtain ⟨v, hv, -, hfails⟩ := hoccurrence
  cases hv
  exact hfails rfl

/-- A native function that answers as if it were a value that is called. -/
def pretender : Native Nat where
  name := "host::pretend"
  run := fun _ n => (.failure (.ofCause (.notCallable "x" .integer)), n)

/-- A failure of a look-up needs no look-up: a native function can answer with it, in a program without names.
And an unknown name does not end a run so if there is no level for it any more. -/
theorem runProgram_lookups_elsewhere :
    let i (limits : Limits) : Interpreter Nat := ⟨[("host", [("pretend", pretender)])], limits, 0, []⟩
    let pretending : Program := ⟨none, [.expression none (.call none (.path none "host" "pretend") [])]⟩
    let nested : Program := ⟨none, [.expression none (.unary none "-" (.name none "x"))]⟩
    (pretending.occurrences = [] ∧
      ∃ f, ((i ⟨9, 1000⟩).runProgram pretending none 0).result = .error (.failure f) ∧
        f.cause.code = "E304") ∧
    nested.occurrences = [⟨.value, none, "x", [[]]⟩] ∧ declaration? id "x" [[]] = none ∧
      ((i ⟨2, 1000⟩).runProgram nested none 0).result =
        .error (.failure ⟨.undefinedName "x", none, none⟩) ∧
      ((i ⟨1, 1000⟩).runProgram nested none 0).result = .error (.tooDeep none) :=
  ⟨⟨rfl, _, rfl, rfl⟩, rfl, rfl, rfl, rfl⟩

end Interpreter

end Scriptlet
