import Scriptlet.Eval.Interpreter
import Scriptlet.Proofs.Correspondence
import Scriptlet.Proofs.Parsing
import Scriptlet.Proofs.Refusals

/-!
# The stages of a run

A source text is cut into tokens, the tokens are read as a program, and the program is evaluated. Each
stage has causes of failure of its own, so that the cause of a failure tells the stage that failed. What
comes out of the reader is well formed, and evaluation gives every well-formed tree a meaning. Beyond that a
run ends only as the host makes it end: with a failure of a class that the host made up, or with an
exception from something that cannot even be looked at.

* `Token.family_of_ofSource`, `Program.family_of_read`: the causes of the first two stages.
* `Stop.Accounted r stop`: the stop belongs to evaluation, or a native function of `r` answered with it.
* `Eval.Ends r x`: with native functions of `r` around, `x` ends in a value or stops so.
* `runSource_ends`: a run ends in a value, in a failure of the stage that failed, or as the host made it end.
* `runSource_hostErrors`: a host that does.
-/

namespace Scriptlet

/-- Does a family belong to evaluation rather than to reading? -/
def Cause.Family.isRuntime : Cause.Family → Bool
  | .lexical | .syntactic | .other _ => false
  | .resolution | .evaluation | .dispatch | .argument | .resource => true

/-- Does a family belong to one of the two stages of reading? -/
def Cause.Family.isReading : Cause.Family → Bool
  | .lexical | .syntactic => true
  | .resolution | .evaluation | .dispatch | .argument | .resource | .other _ => false

theorem isRuntime_of_isOperation {cause : Cause} (h : cause.isOperation = true) :
    cause.family.isRuntime = true := by
  cases cause with
  | operandMismatch | divisionByZero | indexOutOfRange => rfl
  | _ => cases h

/-! ## Scanning -/

namespace Token

theorem family_of_badNumber {radix : Radix} {lexeme before blamed : List Char} {cause : Cause}
    (h : badNumber radix lexeme = .fault cause before blamed) : cause.family = .lexical := by
  cases h
  rfl

theorem family_of_number {text before blamed : List Char} {cause : Cause}
    (h : number text = .fault cause before blamed) : cause.family = .lexical := by
  have hdecimal (h : decimalNumber text = .fault cause before blamed) : cause.family = .lexical := by
    unfold decimalNumber at h
    dsimp only at h
    split_ifs at h
    · exact family_of_badNumber h
    · exact family_of_badNumber h
  have hmarked {radix : Radix} {base : Nat} {isDigit : Char → Bool} {mark text : List Char}
      (h : markedNumber radix base isDigit mark text = .fault cause before blamed) :
      cause.family = .lexical := by
    unfold markedNumber at h
    dsimp only at h
    split_ifs at h
    · exact family_of_badNumber h
    · exact family_of_badNumber h
  unfold number at h
  split at h
  · split_ifs at h
    · exact hmarked h
    · exact hmarked h
    · exact hdecimal h
  · exact hdecimal h

theorem family_of_string {text before blamed : List Char} {cause : Cause}
    (h : string text = .fault cause before blamed) : cause.family = .lexical := by
  unfold string at h
  split at h
  · cases h
  · cases h
    rfl
  · cases h
    rfl

theorem family_of_symbol {c : Char} {cs before blamed : List Char} {cause : Cause}
    (h : symbol c cs = .fault cause before blamed) : cause.family = .lexical := by
  have hsingle (h : singleSymbol c cs = .fault cause before blamed) : cause.family = .lexical := by
    unfold singleSymbol at h
    split at h
    · cases h
    · cases h
      rfl
  unfold symbol at h
  split at h
  · split at h
    · cases h
    · exact hsingle h
  · exact hsingle h

theorem family_of_slash {cs before blamed : List Char} {cause : Cause}
    (h : slash cs = .fault cause before blamed) : cause.family = .lexical := by
  unfold slash at h
  split at h
  · cases h
  · split at h
    · cases h
    · cases h
      rfl
  · exact family_of_symbol h

theorem family_of_piece {c : Char} {cs before blamed : List Char} {cause : Cause}
    (h : piece c cs = .fault cause before blamed) : cause.family = .lexical := by
  unfold piece at h
  split_ifs at h
  · exact family_of_slash h
  · exact family_of_string h
  · exact family_of_number h
  · cases h
  · exact family_of_symbol h

theorem family_of_scan {here : Location} {text : List Char} {fault : Fault}
    (h : (scan here text).2 = some fault) : fault.cause.family = .lexical := by
  fun_induction scan here text with
  | case1 => cases h
  | case2 _ _ _ _ _ _ ih => exact ih h
  | case3 here c cs kind lexeme rest hpiece stop tokens fault' hscan ih =>
    rw [hscan] at ih
    exact ih h
  | case4 here c cs cause before blamed hpiece start =>
    cases h
    exact family_of_piece hpiece

theorem family_of_ofSource {source : String} {f : Failure} (h : ofSource source = .error f) :
    f.cause.family = .lexical := by
  unfold ofSource stream at h
  cases hfault : (scan .first source.toList).2 with
  | none => simp [hfault] at h
  | some fault =>
    have hfamily := family_of_scan hfault
    simp only [hfault, Option.map_some] at h
    cases h
    exact hfamily

/-- Without a fault, the tokens of a text end with the end of input. -/
theorem scan_ended {here : Location} {text : List Char} (h : (scan here text).2 = none) :
    ∃ ts last, (scan here text).1 = ts ++ [last] ∧ last.kind = .eof := by
  fun_induction scan here text with
  | case1 here => exact ⟨[], ⟨.eof, "", ⟨here, here⟩⟩, rfl, rfl⟩
  | case2 _ _ _ _ _ _ ih => exact ih h
  | case3 here c cs kind lexeme rest hpiece stop tokens fault hscan ih =>
    rw [hscan] at ih
    obtain ⟨ts, last, rfl, hlast⟩ := ih h
    exact ⟨⟨kind, String.ofList lexeme, ⟨here, stop⟩⟩ :: ts, last, rfl, hlast⟩
  | case4 => cases h

theorem isEnded_of_ofSource {source : String} {tokens : List Token}
    (h : ofSource source = .ok tokens) : Program.isEnded tokens = true := by
  unfold ofSource stream at h
  cases hfault : (scan .first source.toList).2 with
  | some fault => simp [hfault] at h
  | none =>
    obtain ⟨ts, last, htokens, hlast⟩ := scan_ended hfault
    simp only [hfault, Option.map_none] at h
    cases h
    rw [htokens, Program.isEnded, List.getLast?_concat]
    exact decide_eq_true hlast

end Token

/-! ## Reading -/

theorem Reader.Blames.family {t : Token} {fault : Fault} (h : Blames t fault) :
    fault.cause.family = .syntactic := by
  cases h <;> rfl

theorem Reader.family_of_run {limit : Nat} {r : Reader} {tokens : List Token} {fault : Fault}
    (h : r.run limit tokens = .error fault) : fault.cause.family = .syntactic := by
  obtain ⟨ts, t, rest, r', -, -, -, -, hrefused⟩ := exists_of_run_error h
  by_cases hdeep : fault.cause = .nestingTooDeep
  · rw [hdeep]
    rfl
  · exact (take_error_of_le (Nat.le_refl limit) hrefused hdeep).2.family

theorem Program.family_of_read {limit : Nat} {tokens : List Token} {fault : Fault}
    (h : read limit tokens = .error fault) : fault.cause.family = .syntactic := by
  cases tokens with
  | nil => cases h
  | cons first ts =>
    rw [read] at h
    cases hrun : (Reader.initial first.span).run limit (first :: ts) with
    | ok r => rw [hrun] at h; cases h
    | error fault' =>
      rw [hrun] at h
      cases h
      exact Reader.family_of_run hrun

/-! ## Native functions -/

/-- The registry has the function at some path. -/
def Registry.Offers {σ : Type} (r : Registry σ) (n : Native σ) : Prop :=
  ∃ module symbol, r.find? module symbol = some n

/-- Some function of the registry gives this answer, to some arguments in some state. -/
def Registry.Answers {σ : Type} (r : Registry σ) (answer : Native.Answer) : Prop :=
  ∃ n args s, r.Offers n ∧ (n.run args s).1 = answer

/-- No function of the registry answers with a failure of reading. -/
def Registry.Tame {σ : Type} (r : Registry σ) : Prop :=
  ∀ f, r.Answers (.failure f) → f.cause.family.isReading = false

namespace Environment

variable {σ : Type} {P : Native σ → Prop}

/-- All native functions that are bound are in `P`, in whatever scope. -/
def Holds (P : Native σ → Prop) (e : Environment σ) : Prop :=
  ∀ scope ∈ e.inner :: e.outer, ∀ name n, scope.get? name = some (.native n) → P n

theorem holds_empty : (({} : Environment σ)).Holds P := by
  intro scope hscope name n h
  rw [List.mem_singleton.1 hscope] at h
  cases h

theorem Holds.push {e : Environment σ} (h : e.Holds P) : e.push.Holds P :=
  List.forall_mem_cons.2 ⟨nofun, h⟩

theorem Holds.pop {e : Environment σ} (h : e.Holds P) : e.pop.Holds P := by
  obtain ⟨inner, outer⟩ := e
  cases outer with
  | nil => exact h
  | cons scope scopes => exact (List.forall_mem_cons.1 h).2

theorem Holds.bind {e : Environment σ} (h : e.Holds P) {b : Binding σ}
    (hb : ∀ n, b = .native n → P n) (name : String) : (e.bind name b).Holds P := by
  obtain ⟨hinner, houter⟩ := List.forall_mem_cons.1 h
  refine List.forall_mem_cons.2 ⟨fun other n hn => ?_, houter⟩
  change (e.inner.put name b).get? other = some (.native n) at hn
  obtain ⟨-, hnative⟩ | hn := Assoc.eq_or_get?_of_put hn
  · exact hb n hnative.symm
  · exact hinner other n hn

theorem Holds.lookup {e : Environment σ} (h : e.Holds P) {name : String} {n : Native σ}
    (hn : e.lookup name = some (.native n)) : P n := by
  unfold Environment.lookup at hn
  unfold Holds at h
  generalize e.inner :: e.outer = scopes at h hn
  induction scopes with
  | nil => cases hn
  | cons scope scopes ih =>
    obtain ⟨hscope, hscopes⟩ := List.forall_mem_cons.1 h
    unfold lookupIn at hn
    split at hn
    · next b hb =>
      rw [Option.some.inj hn] at hb
      exact hscope name n hb
    · exact ih hscopes hn

end Environment

/-! ## Evaluation -/

/-- The failure belongs to evaluation, or a function of the registry made it up. -/
def Failure.Accounted {σ : Type} (r : Registry σ) (f : Failure) : Prop :=
  f.cause.family.isRuntime = true ∨
    (∃ name, f.cause.family = .other name) ∧ r.Answers (.failure f)

/-- The stop belongs to evaluation, at a limit or with such a failure, or it is an exception from an answer
that cannot be looked at. -/
def Stop.Accounted {σ : Type} (r : Registry σ) : Stop → Prop
  | .failure f => f.Accounted r
  | .tooDeep _ | .exhausted => True
  | .malformed _ => False
  | .exception kind => r.Answers (.unreadable kind)

theorem Registry.Tame.accounted {σ : Type} {r : Registry σ} (h : r.Tame) {f : Failure}
    (hf : r.Answers (.failure f)) : f.Accounted r := by
  have hfamily := h f hf
  unfold Failure.Accounted
  cases hcause : f.cause.family with
  | lexical | syntactic =>
    rw [hcause] at hfamily
    cases hfamily
  | resolution | evaluation | dispatch | argument | resource => exact .inl rfl
  | other name => exact .inr ⟨⟨name, rfl⟩, hf⟩

namespace Eval

variable {σ α β : Type} {r : Registry σ}

/-- With native functions of the registry in the environment, `x` ends with no others there, or its stop is
accounted for. -/
def Ends (r : Registry σ) (x : Eval σ α) : Prop :=
  ∀ m, m.env.Holds r.Offers →
    match x m with
    | .ok _ m' => m'.env.Holds r.Offers
    | .error stop _ => stop.Accounted r

theorem ends_pure (a : α) : Ends r (pure a) := fun _ hm => hm

theorem ends_fail (span : Option Span) {cause : Cause} (h : cause.family.isRuntime = true) :
    Ends r (fail span cause : Eval σ α) :=
  fun _ _ => .inl h

namespace Ends

theorem bind {x : Eval σ α} {f : α → Eval σ β} (h : Ends r x) (hf : ∀ a, Ends r (f a)) :
    Ends r (x >>= f) := by
  intro m hm
  have hx := h m hm
  cases hr : x m with
  | error stop m' =>
    rw [hr] at hx
    rw [bind_error hr]
    exact hx
  | ok a m' =>
    rw [hr] at hx
    rw [bind_ok hr]
    exact hf a m' hx

theorem nested {x : Eval σ α} (h : Ends r x) (limits : Limits) (span : Option Span) :
    Ends r (nested limits span x) := by
  intro m hm
  unfold Eval.nested
  split_ifs
  · trivial
  · trivial
  · have hx := h m.descend hm
    unfold andThen
    cases hr : x m.descend with
    | error stop m' => rw [hr] at hx; exact hx
    | ok a m' => rw [hr] at hx; exact hx

theorem inScope {x : Eval σ α} (h : Ends r x) : Ends r (inScope x) := by
  intro m hm
  have hx := h m.enterScope hm.push
  unfold Eval.inScope andThen
  cases hr : x m.enterScope with
  | error stop m' => rw [hr] at hx; exact hx
  | ok a m' => rw [hr] at hx; exact hx.pop

theorem resolve_bind {k : Native σ → Eval σ Value} (span : Option Span) (module symbol : String)
    (hk : ∀ n, r.Offers n → Ends r (k n)) : Ends r (resolve r span module symbol >>= k) := by
  obtain ⟨n, hn, hresolve⟩ | ⟨cause, hmissing, hresolve⟩ := resolve_cases r span module symbol
  · rw [hresolve, pure_bind]
    exact hk n ⟨module, symbol, hn⟩
  · rw [hresolve]
    cases hmissing with
    | module _ => exact ends_fail span rfl
    | symbol _ _ => exact ends_fail span rfl

theorem callee_bind {k : Native σ → Eval σ Value} (span : Option Span) (name : String)
    (hk : ∀ n, r.Offers n → Ends r (k n)) : Ends r (callee r (.name span name) >>= k) := by
  intro m hm
  have hcallee := callee_name_apply r span name m
  rcases hlookup : m.env.lookup name with _ | (v | n)
  · rw [hlookup] at hcallee
    rw [bind_error hcallee]
    exact .inl rfl
  · rw [hlookup] at hcallee
    rw [bind_error hcallee]
    exact .inl rfl
  · rw [hlookup] at hcallee
    rw [bind_ok hcallee]
    exact hk n (hm.lookup hlookup) m hm

end Ends

theorem ends_bindName {b : Binding σ} (hb : ∀ n, b = .native n → r.Offers n) (name : String) :
    Ends r (bindName name b) :=
  fun _ hm => hm.bind hb name

theorem ends_readName (span : Option Span) (name : String) :
    Ends r (readName span name : Eval σ Value) := by
  intro m hm
  rw [readName_apply]
  rcases m.env.lookup name with _ | (v | n)
  · exact .inl rfl
  · exact hm
  · exact .inl rfl

theorem ends_invoke (hr : r.Tame) (call : Node) {n : Native σ} (hn : r.Offers n)
    (args : List Value) : Ends r (invoke call n args) := by
  intro m hm
  rw [invoke_apply]
  cases hrun : (n.run args m.natives).1 with
  | value v => exact hm
  | foreign typeName => exact .inl rfl
  | failure f => exact hr.accounted ⟨n, args, m.natives, hn, hrun⟩
  | escaped kind text => exact .inl rfl
  | unreadable kind => exact ⟨n, args, m.natives, hn, hrun⟩

/-- Every well-formed tree has a meaning. -/
theorem correspondence_ends {s : Setting σ} (hs : s.registry.Tame) :
    Correspondence s s { formed := True } Grading.trivial
      (fun n n' => n = n' ∧ s.registry.Offers n) (fun _ _ x _ => Ends s.registry x) where
  pure a := ends_pure a
  decided _ _ v := ends_pure v
  fail _ span _ h := ends_fail span (isRuntime_of_isOperation (h trivial))
  refuse h := absurd trivial h
  misplaced h := absurd trivial h
  readName span name := ends_readName span name
  bind hx hf := hx.bind hf
  nested hx span := hx.nested s.limits span
  resolve {_ _ _} span {module symbol} _ hk :=
    .resolve_bind span module symbol fun n hn => hk n n ⟨rfl, hn⟩
  lookUp span name hk := .callee_bind span name fun n hn => hk n n ⟨rfl, hn⟩
  invoke call args {_ _} hn := ends_invoke hs call hn.2 args
  inScope hx := hx.inScope
  bindValue name _ := ends_bindName (fun _ h => by cases h) name
  bindNative name {_ _} hn := ends_bindName (fun _ h => Binding.native.inj h ▸ hn.2) name

end Eval

/-! ## Runs -/

/-- A program that was read runs to a value, or its stop is accounted for. -/
theorem Interpreter.accounted_of_runProgram {σ : Type} {i : Interpreter σ} (hi : i.registry.Tame)
    {limit : Nat} {tokens : List Token} {p : Program} (hp : Program.read limit tokens = .ok p)
    {source : Option String} {natives : σ} {stop : Stop}
    (h : (i.runProgram p source natives).result = .error stop) : stop.Accounted i.registry := by
  have hstatements : ∀ e ∈ p.statements, e.IsStatement fun _ => True :=
    Program.isStatement_of_read (fun _ _ _ _ => trivial) hp
  have hends := (Eval.correspondence_ends (s := i.setting) hi).executeAll p.statements .unit
    (fun e he => ⟨fun _ _ => trivial, fun _ => hstatements e he, False.elim⟩)
    (start source {} natives [.started p.statements.length]) Environment.holds_empty
  unfold runProgram at h
  split at h
  · cases h
  · next stop' m hrun =>
    rw [hrun] at hends
    cases h
    exact hends

/-- A run whose stop is accounted for ends in a failure that is, or in the exception. -/
theorem Stop.error_cases {σ : Type} {r : Registry σ} {limits : Limits} {lines : List String}
    {span : Option Span} {stop : Stop} (h : stop.Accounted r) :
    (∃ f, stop.error limits lines span = .failure f ∧ f.Accounted r) ∨
      ∃ kind, stop.error limits lines span = .exception kind ∧ r.Answers (.unreadable kind) := by
  cases stop with
  | failure f => exact .inl ⟨f, rfl, h⟩
  | tooDeep place => exact .inl ⟨_, rfl, .inl rfl⟩
  | exhausted => exact .inl ⟨_, rfl, .inl rfl⟩
  | malformed m => exact h.elim
  | exception kind => exact .inr ⟨kind, rfl, h⟩

section

variable {σ : Type} {i : Interpreter σ} {source : String} {natives : σ}

theorem runSource_of_scan_error {f : Failure} (h : Token.ofSource source = .error f) :
    (runSource i source natives).1 = .error (.failure f) := by
  rw [runSource, Program.ofSourceWithin, h]

theorem runSource_of_read_error {tokens : List Token} {fault : Fault}
    (htokens : Token.ofSource source = .ok tokens)
    (h : Program.read i.limits.stackDepth tokens = .error fault) :
    (runSource i source natives).1 = .error (.failure (fault.quote (Text.lines source))) := by
  simp only [runSource, Program.ofSourceWithin, htokens, h]

theorem runSource_of_read {tokens : List Token} {p : Program}
    (htokens : Token.ofSource source = .ok tokens)
    (h : Program.read i.limits.stackDepth tokens = .ok p) :
    (runSource i source natives).1 = (i.runProgram p (some source) natives).value p.span := by
  simp only [runSource, Program.ofSourceWithin, htokens, h]

/-- The three ways of a run: it ends with the first stage, with the second or with the third. -/
theorem runSource_cases (hi : i.registry.Tame) (source : String) (natives : σ) :
    (∃ f, Token.ofSource source = .error f ∧
      (runSource i source natives).1 = .error (.failure f) ∧ f.cause.family = .lexical) ∨
    (∃ tokens f, Token.ofSource source = .ok tokens ∧
      Program.ofTokensWithin i.limits.stackDepth (Text.lines source) tokens = .error (.failure f) ∧
      (runSource i source natives).1 = .error (.failure f) ∧ f.cause.family = .syntactic) ∨
    ∃ tokens p, Token.ofSource source = .ok tokens ∧
      Program.ofTokensWithin i.limits.stackDepth (Text.lines source) tokens = .ok p ∧
      ((∃ v, (runSource i source natives).1 = .ok v) ∨
        (∃ f, (runSource i source natives).1 = .error (.failure f) ∧ f.Accounted i.registry) ∨
        ∃ kind, (runSource i source natives).1 = .error (.exception kind) ∧
          i.registry.Answers (.unreadable kind)) := by
  cases hscan : Token.ofSource source with
  | error f => exact .inl ⟨f, rfl, runSource_of_scan_error hscan, Token.family_of_ofSource hscan⟩
  | ok tokens =>
    have hended := Token.isEnded_of_ofSource hscan
    refine .inr ?_
    cases hread : Program.read i.limits.stackDepth tokens with
    | error fault =>
      refine .inl ⟨tokens, _, rfl, ?_, runSource_of_read_error hscan hread,
        Program.family_of_read hread⟩
      rw [Program.ofTokensWithin, if_pos hended, hread]
    | ok p =>
      refine .inr ⟨tokens, p, rfl, by rw [Program.ofTokensWithin, if_pos hended, hread], ?_⟩
      rw [runSource_of_read hscan hread, Outcome.value]
      cases hresult : (i.runProgram p (some source) natives).result with
      | ok v => exact .inl ⟨v, rfl⟩
      | error stop =>
        obtain ⟨f, hf, haccounted⟩ | ⟨kind, hkind, hanswers⟩ :=
          Stop.error_cases (Interpreter.accounted_of_runProgram hi hread hresult)
        · exact .inr (.inl ⟨f, congrArg Except.error hf, haccounted⟩)
        · exact .inr (.inr ⟨kind, congrArg Except.error hkind, hanswers⟩)

end

theorem Failure.Accounted.not_reading {σ : Type} {r : Registry σ} {f : Failure}
    (h : f.Accounted r) : f.cause.family ≠ .lexical ∧ f.cause.family ≠ .syntactic := by
  obtain hruntime | ⟨⟨name, hname⟩, -⟩ := h
  · constructor
    · rintro hfamily
      rw [hfamily] at hruntime
      cases hruntime
    · rintro hfamily
      rw [hfamily] at hruntime
      cases hruntime
  · rw [hname]
    exact ⟨nofun, nofun⟩

/-- A run ends in a value or in a failure, unless a native function answers with what cannot be looked at:
then it ends in the exception of that. The failure is the one of the scanner if the text cannot be scanned,
the one of the reader if its tokens cannot be read, and else one of evaluation or one of a class that a
native function made up. A program that was read meets neither a tree without meaning nor a failure of the
first two stages. -/
theorem runSource_ends {σ : Type} (i : Interpreter σ) (hregistry : i.registry.Tame) (source : String)
    (natives : σ) :
    let result := (runSource i source natives).1
    let parse := Program.ofTokensWithin i.limits.stackDepth (Text.lines source)
    ((∃ v, result = .ok v) ∨ (∃ f, result = .error (.failure f)) ∨
      ∃ kind, result = .error (.exception kind) ∧ i.registry.Answers (.unreadable kind)) ∧
    (∀ f, Token.ofSource source = .error f ↔
      result = .error (.failure f) ∧ f.cause.family = .lexical) ∧
    (∀ e, (∃ tokens, Token.ofSource source = .ok tokens ∧ parse tokens = .error e) ↔
      ∃ f, e = .failure f ∧ result = .error (.failure f) ∧ f.cause.family = .syntactic) ∧
    (∀ tokens p, Token.ofSource source = .ok tokens → parse tokens = .ok p →
      ∀ f, result = .error (.failure f) → f.cause.family.isRuntime = true ∨
        (∃ name, f.cause.family = .other name) ∧ i.registry.Answers (.failure f)) ∧
    ∀ (limit : Nat) (tokens : List Token) (p : Program), Program.read limit tokens = .ok p →
      ∀ (text : Option String) (state : σ) (stop : Stop),
        (i.runProgram p text state).result = .error stop → stop.Accounted i.registry := by
  intro result parse
  have hlast (limit : Nat) (tokens : List Token) (p : Program)
      (hp : Program.read limit tokens = .ok p) (text : Option String) (state : σ) (stop : Stop)
      (hstop : (i.runProgram p text state).result = .error stop) : stop.Accounted i.registry :=
    Interpreter.accounted_of_runProgram hregistry hp hstop
  -- The families tell the three ways apart, so each of them settles all the equivalences.
  obtain ⟨f, hscan, hresult, hfamily⟩ | ⟨tokens, f, hscan, hparse, hresult, hfamily⟩ |
    ⟨tokens, p, hscan, hparse, ⟨v, hresult⟩ | ⟨f, hresult, haccounted⟩ | ⟨kind, hresult, hkind⟩⟩ :=
    runSource_cases hregistry source natives
  · exact ⟨.inr (.inl ⟨f, hresult⟩), by grind, by grind, by grind, hlast⟩
  · exact ⟨.inr (.inl ⟨f, hresult⟩), by grind, by grind, by grind, hlast⟩
  · exact ⟨.inl ⟨v, hresult⟩, by grind, by grind, by grind, hlast⟩
  · obtain ⟨hlexical, hsyntactic⟩ := haccounted.not_reading
    refine ⟨.inr (.inl ⟨f, hresult⟩), by grind, by grind, fun _ _ _ _ g hg => ?_, hlast⟩
    have hsame : f = g := RunError.failure.inj (Except.error.inj (hresult.symm.trans hg))
    exact hsame ▸ haccounted
  · exact ⟨.inr (.inr ⟨kind, hresult, hkind⟩), by grind, by grind, by grind, hlast⟩

/-- In a registry of one function, no other function is found. -/
theorem Registry.eq_of_offers {σ : Type} {m f : String} {n n' : Native σ}
    (h : Registry.Offers [(m, [(f, n)])] n') : n' = n := by
  obtain ⟨module, symbol, hfind⟩ := h
  obtain ⟨table, htable, hn⟩ := Option.bind_eq_some_iff.1 hfind
  grind [Assoc.get?]

/-- The failure of a class that is none of evaluation, nor of reading. -/
def hostFailure : Failure := .ofCause (.custom (.other "HostError") "H001" "no such thing" [] [])

/-- A host function that answers in all the ways there are, each time in another one. -/
def moody : Native Nat where
  name := "host::moody"
  run args state := match state with
    | 0 => (.value (.tuple args), 1)
    | 1 => (.foreign "object", 2)
    | 2 => (.escaped "ValueError" "boom", 3)
    | 3 => (.unreadable "ValueError", 4)
    | 4 => (.failure hostFailure, 5)
    | n => (.failure (.ofCause (.wrongArity "host::moody" n args.length)), n + 1)

/-- An interpreter that knows this function only. -/
def moodyHost : Interpreter Nat := ⟨[("host", [("moody", moody)])], ⟨20, 1000⟩, 0, []⟩

theorem moodyHost_tame : moodyHost.registry.Tame := by
  rintro f ⟨n, args, state, hn, hf⟩
  rw [Registry.eq_of_offers hn] at hf
  match state with
  | 0 | 1 | 2 | 3 => cases hf
  | 4 =>
    cases hf
    rfl
  | k + 5 =>
    cases hf
    rfl

/-- A text that ends too early, one whose native function lets an exception escape, and a program whose
native function gives back what is no value. -/
theorem runSource_ends_moodyHost :
    moodyHost.registry.Tame ∧
    (∃ tokens e, Token.ofSource "(1 +" = .ok tokens ∧
      Program.ofTokensWithin 1000 (Text.lines "(1 +") tokens = .error e) ∧
    ((∃ v, (runSource moodyHost "host::moody(1)" 2).1 = .ok v) ∨
      (∃ f, (runSource moodyHost "host::moody(1)" 2).1 = .error (.failure f)) ∨
      ∃ kind, (runSource moodyHost "host::moody(1)" 2).1 = .error (.exception kind) ∧
        moodyHost.registry.Answers (.unreadable kind)) ∧
    ∃ p stop, Program.read 9 (Program.tokensOf [.ident "host", .symbol .doubleColon, .ident "moody",
        .symbol .openParen, .symbol .closeParen]) = .ok p ∧
      (moodyHost.runProgram p none 1).result = .error stop ∧ stop.Accounted moodyHost.registry := by
  obtain ⟨hends, -, -, -, hruntime⟩ := runSource_ends moodyHost moodyHost_tame "host::moody(1)" 2
  obtain ⟨-, -, hsyntactic, -⟩ := runSource_ends moodyHost moodyHost_tame "(1 +" 0
  have hfails : (runSource moodyHost "(1 +" 0).1 = .error (.failure
      ⟨.unexpectedEnd .expression, some ⟨⟨1, 5, 4⟩, ⟨1, 5, 4⟩⟩, none⟩) := by
    decide +kernel
  obtain ⟨tokens, htokens, hparse⟩ := (hsyntactic _).2 ⟨_, rfl, hfails, rfl⟩
  have hstop := hruntime 9 (Program.tokensOf [.ident "host", .symbol .doubleColon, .ident "moody",
    .symbol .openParen, .symbol .closeParen]) _ rfl none 1 _ rfl
  exact ⟨moodyHost_tame, ⟨tokens, _, htokens, hparse⟩, hends, _, _, rfl, rfl, hstop⟩

/-- Not every run ends in a value or in a failure of its stages: this host ends one in an exception and
another one in a failure of a class of its own, though it answers with no failure of reading. -/
theorem runSource_hostErrors :
    moodyHost.registry.Tame ∧
    (runSource moodyHost "host::moody(1)" 3).1 = .error (.exception "ValueError") ∧
    (runSource moodyHost "host::moody(1)" 4).1 = .error (.failure hostFailure) ∧
    hostFailure.cause.family.isRuntime = false ∧ hostFailure.cause.family.isReading = false := by
  refine ⟨moodyHost_tame, ?_, ?_, rfl, rfl⟩
  · decide +kernel
  · decide +kernel

end Scriptlet
