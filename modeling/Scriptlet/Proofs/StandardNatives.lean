import Scriptlet.Native.Standard
import Scriptlet.Proofs.SignalLog

/-!
# What the standard native functions do

The functions of the module `os` leave the state as it is. A function of the module `signal` refuses
arguments of the wrong number or kind and leaves the state as it is, or it makes one request to the table.

* `Assoc.Matches`: maps with related entries.
* `Signal.request?`: the request that a call makes; `Signal.request?_cases` lists them.
* `Signal.Makes`: a function that makes such requests; `Signal.makes_of_get?` says that all of them do.
* `System.run_snd`: the functions of `os` change nothing.
* `Standard.find?_chosen`: a standard registry has no other functions.
-/

namespace Scriptlet

/-- What is written is read, and writing what is read changes nothing. -/
structure View.Lawful {σ α : Type} (view : View σ α) : Prop where
  get_set : ∀ a s, view.get (view.set a s) = a
  set_get : ∀ s, view.set (view.get s) s = s

theorem View.lawful_whole (σ : Type) : (View.whole σ).Lawful := ⟨fun _ _ => rfl, fun _ => rfl⟩

/-! ## Maps with related entries -/

namespace Assoc

variable {α β : Type} {R : α → β → Prop} {m : Assoc α} {m' : Assoc β}

/-- Two maps that have the same names in the same order, with related entries. -/
def Matches (R : α → β → Prop) (m : Assoc α) (m' : Assoc β) : Prop :=
  List.Forall₂ (fun e e' => e.1 = e'.1 ∧ R e.2 e'.2) m m'

theorem Matches.get? (h : Matches R m m') (name : String) :
    Option.Rel R (m.get? name) (m'.get? name) := by
  induction h with
  | nil => exact .none
  | @cons e e' m m' he _ ih =>
    obtain ⟨key, a⟩ := e
    obtain ⟨key', b⟩ := e'
    obtain ⟨rfl, hab⟩ := he
    rw [get?_cons, get?_cons]
    split_ifs
    · exact .some hab
    · exact ih

theorem Matches.put (h : Matches R m m') (name : String) {a : α} {b : β} (hab : R a b) :
    Matches R (m.put name a) (m'.put name b) := by
  induction h with
  | nil => exact .cons ⟨rfl, hab⟩ .nil
  | @cons e e' m m' he hm ih =>
    obtain ⟨key, a'⟩ := e
    obtain ⟨key', b'⟩ := e'
    obtain ⟨rfl, hab'⟩ := he
    unfold Assoc.put
    split_ifs
    · exact .cons ⟨rfl, hab⟩ hm
    · exact .cons ⟨rfl, hab'⟩ ih

end Assoc

variable {σ : Type}

/-! ## Signals -/

namespace Signal

open SignalTable (Request Response serve respond)

/-- The request of a call that names a counter. -/
def byName (toRequest : String → Request) : List Value → Option Request
  | [.str name] => some (toRequest name)
  | _ => none

/-- The request of a call without arguments. -/
def alone (r : Request) : List Value → Option Request
  | [] => some r
  | _ => none

/-- The requests that the functions make. -/
def requests : Assoc (List Value → Option Request) :=
  [("register", byName .register),
   ("emit", byName .emit),
   ("count", byName .count),
   ("tracked", alone .tracked),
   ("reset", byName .reset)]

/-- The request that a call of a function makes, if the number and the kinds of its arguments are right. -/
def request? (symbol : String) (args : List Value) : Option Request :=
  (requests.get? symbol).bind (· args)

theorem byName_eq_some {toRequest : String → Request} {args : List Value} {r : Request}
    (h : byName toRequest args = some r) : ∃ name, args = [.str name] ∧ r = toRequest name := by
  unfold byName at h
  split at h
  · next name => exact ⟨name, rfl, (Option.some.inj h).symm⟩
  · cases h

theorem alone_eq_some {q : Request} {args : List Value} {r : Request} (h : alone q args = some r) :
    args = [] ∧ r = q := by
  unfold alone at h
  split at h
  · exact ⟨rfl, (Option.some.inj h).symm⟩
  · cases h

/-- All requests that calls make. -/
theorem request?_cases {symbol : String} {args : List Value} {r : Request}
    (h : request? symbol args = some r) :
    (∃ name, args = [.str name] ∧
      (symbol = "register" ∧ r = .register name ∨ symbol = "emit" ∧ r = .emit name ∨
        symbol = "count" ∧ r = .count name ∨ symbol = "reset" ∧ r = .reset name)) ∨
    (args = [] ∧ symbol = "tracked" ∧ r = .tracked) := by
  obtain ⟨toRequest, hget, hr⟩ := Option.bind_eq_some_iff.1 h
  have hentry := Assoc.mem_of_get? hget
  simp only [requests, List.mem_cons, Prod.mk.injEq, List.not_mem_nil, or_false] at hentry
  rcases hentry with ⟨rfl, rfl⟩ | ⟨rfl, rfl⟩ | ⟨rfl, rfl⟩ | ⟨rfl, rfl⟩ | ⟨rfl, rfl⟩
  case inr.inr.inr.inl =>
    obtain ⟨rfl, rfl⟩ := alone_eq_some hr
    exact .inr ⟨rfl, rfl, rfl⟩
  all_goals
    obtain ⟨name, rfl, rfl⟩ := byName_eq_some hr
    exact .inl ⟨name, rfl, by simp⟩

/-- The value of a response. Calls make only requests that are answered by a flag or a number. -/
def valueOf : Response → Value
  | .flag b => .bool b
  | .number n => number n
  | .counters _ | .done => .unit

/-- Makes a request on behalf of a call. -/
def ask (r : Request) : Act := fun t => ((serve r t).1.map valueOf, (serve r t).2)

theorem ask_snd (r : Request) (t : SignalTable) : (ask r t).2 = (serve r t).2 := rfl

/-- The plan of a function that makes requests: wrong arguments are refused. -/
def Plans (plan : String → List Value → Except Cause Act)
    (toRequest : List Value → Option Request) : Prop :=
  ∀ function args,
    match toRequest args with
    | some r => plan function args = .ok (ask r)
    | none => ∃ cause, plan function args = .error cause ∧ cause.code ∈ ["E403", "E404"]

/-- An operation whose result becomes a value is a request whose response does. -/
theorem act_eq_ask {α : Type} {toValue : α → Value} {toResponse : α → Response} {r : Request}
    {operation : SignalTable → Except Cause α × SignalTable}
    (hvalue : ∀ a, valueOf (toResponse a) = toValue a)
    (hserve : ∀ t, serve r t = respond toResponse (operation t)) :
    act toValue operation = ask r := by
  funext t
  unfold act ask
  rw [hserve]
  unfold respond
  rcases operation t with ⟨cause | a, t'⟩
  · rfl
  · simp only [Except.map, hvalue]

theorem plans_plain {body : Act} {r : Request} (hbody : body = ask r) :
    Plans (plain body) (alone r) := by
  subst hbody
  intro function args
  cases args with
  | nil => rfl
  | cons a args => exact ⟨_, rfl, List.mem_cons_self⟩

theorem plans_named {body : String → Act} {toRequest : String → Request}
    (hbody : ∀ name, body name = ask (toRequest name)) :
    Plans (named body) (byName toRequest) := by
  obtain rfl := funext hbody
  intro function args
  rcases args with - | ⟨a, - | ⟨b, args⟩⟩
  · exact ⟨_, rfl, List.mem_cons_self⟩
  · cases a with
    | str name => rfl
    | _ => exact ⟨_, rfl, List.mem_cons_of_mem _ List.mem_cons_self⟩
  · cases a <;> exact ⟨_, rfl, List.mem_cons_self⟩

/-- A native function that makes one request for each call with right arguments, and refuses other calls
without touching the state. -/
structure Makes (view : View σ SignalTable) (n : Native σ)
    (toRequest : List Value → Option Request) : Prop where
  run_of_request : ∀ {args : List Value} {r : Request}, toRequest args = some r → ∀ s,
    n.run args s = (.ofResult (ask r (view.get s)).1, view.set (ask r (view.get s)).2 s)
  run_of_refused : ∀ {args : List Value}, toRequest args = none →
    ∃ cause, cause.code ∈ ["E403", "E404"] ∧ ∀ s, n.run args s = (.failure (.ofCause cause), s)

theorem Plans.makes {plan : String → List Value → Except Cause Act}
    {toRequest : List Value → Option Request} (h : Plans plan toRequest)
    (view : View σ SignalTable) (symbol : String) :
    Makes view (native view symbol plan).2 toRequest where
  run_of_request {args r} hr s := by
    have hplan := h (Node.pathText moduleName symbol) args
    rw [hr] at hplan
    simp only [native, hplan]
  run_of_refused {args} hr := by
    have hplan := h (Node.pathText moduleName symbol) args
    rw [hr] at hplan
    obtain ⟨cause, hplan, hcode⟩ := hplan
    refine ⟨cause, hcode, fun s => ?_⟩
    simp only [native, hplan]

/-- The functions of the module make the requests of the table, entry by entry. -/
theorem module_makes (view : View σ SignalTable) :
    Assoc.Matches (Makes view) (module view) requests := by
  have hflag : ∀ b, valueOf (.flag b) = .bool b := fun _ => rfl
  have hnumber : ∀ k, valueOf (.number k) = number k := fun _ => rfl
  refine .cons ⟨rfl, ?register⟩ (.cons ⟨rfl, ?emit⟩ (.cons ⟨rfl, ?count⟩ (.cons ⟨rfl, ?tracked⟩
    (.cons ⟨rfl, ?reset⟩ .nil))))
  case register => exact (plans_named fun _ => act_eq_ask hflag fun _ => rfl).makes view _
  case emit => exact (plans_named fun _ => act_eq_ask hnumber fun _ => rfl).makes view _
  case count => exact (plans_named fun _ => act_eq_ask hnumber fun _ => rfl).makes view _
  case tracked => exact (plans_plain (act_eq_ask hnumber fun _ => rfl)).makes view _
  case reset => exact (plans_named fun _ => act_eq_ask hflag fun _ => rfl).makes view _

theorem makes_of_get? {view : View σ SignalTable} {symbol : String} {n : Native σ}
    (h : (module view).get? symbol = some n) : Makes view n (request? symbol) := by
  have hmatch := (module_makes view).get? symbol
  rw [h] at hmatch
  cases hget : requests.get? symbol with
  | none =>
    rw [hget] at hmatch
    cases hmatch
  | some toRequest =>
    rw [hget] at hmatch
    have heq : request? symbol = toRequest := by
      funext args
      rw [request?, hget]
      rfl
    rw [heq]
    cases hmatch with
    | some hmakes => exact hmakes

end Signal

/-! ## The system -/

/-- The functions of the module `os` leave the state as it is. -/
theorem System.run_snd {host : Host} {symbol : String} {n : Native σ}
    (h : (module host).get? symbol = some n) (args : List Value) (s : σ) : (n.run args s).2 = s := by
  have hmodule : ∀ e ∈ module host, ∀ (args : List Value) (s : σ), (e.2.run args s).2 = s := by
    simp [module, native]
  exact hmodule _ (Assoc.mem_of_get? h) args s

/-! ## Standard registries -/

namespace Standard

theorem get?_chosen {host : Host} {view : View σ SignalTable} {names : List String}
    {module : String} {table : NativeModule σ}
    (h : (chosen host view names).get? module = some table) :
    (module = System.moduleName ∧ table = System.module host) ∨
      (module = Signal.moduleName ∧ table = Signal.module view) := by
  have hempty : (Registry.empty (σ := σ)).get? module ≠ some table := by
    intro h
    cases h
  unfold chosen add at h
  dsimp only at h
  split_ifs at h
  · rcases Assoc.eq_or_get?_of_put h with hsignal | h
    · exact .inr hsignal
    · exact .inl ((Assoc.eq_or_get?_of_put h).resolve_right hempty)
  · exact .inr ((Assoc.eq_or_get?_of_put h).resolve_right hempty)
  · exact .inl ((Assoc.eq_or_get?_of_put h).resolve_right hempty)
  · exact absurd h hempty

/-- A standard registry has functions of the modules `os` and `signal` only. -/
theorem find?_chosen {host : Host} {view : View σ SignalTable} {names : List String}
    {module symbol : String} {n : Native σ}
    (h : (chosen host view names).find? module symbol = some n) :
    (module = System.moduleName ∧ (System.module host).get? symbol = some n) ∨
      (module = Signal.moduleName ∧ (Signal.module view).get? symbol = some n) := by
  obtain ⟨table, htable, hn⟩ := Option.bind_eq_some_iff.1 h
  rcases get?_chosen htable with ⟨rfl, rfl⟩ | ⟨rfl, rfl⟩
  · exact .inl ⟨rfl, hn⟩
  · exact .inr ⟨rfl, hn⟩

end Standard

end Scriptlet
