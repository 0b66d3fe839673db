import Mathlib.Tactic.Common
import Scriptlet.Eval.Basic

/-!
# Equality and order

The operators that compare values agree with each other. Equality is there for all values and looks at kinds
and payloads, through all tuples. Order is there for two integers and for two strings; it is total there, and
it is that of equality.

* `Value.Same`: the same kind and the same payload.
* `Value.Less`: the order of integers, and the lexicographic order of strings by code points.
* `Value.order?_eq_lt_iff`, `Value.order?_eq_eq_iff`: how the order is computed.
* `Eval.comparisons_consistent`: what the operators give, and how this fits together.
-/

namespace Scriptlet

namespace Value

/-! ## Equality -/

/-- Values of one kind with the same payload; the payloads of tuples are compared element by element. -/
inductive Same : Value → Value → Prop
  | int (n : Int) : Same (.int n) (.int n)
  | str (s : String) : Same (.str s) (.str s)
  | bool (b : Bool) : Same (.bool b) (.bool b)
  | tuple {vs ws : List Value} : List.Forall₂ Same vs ws → Same (.tuple vs) (.tuple ws)

mutual

theorem same_refl : ∀ v : Value, v.Same v
  | .int n => .int n
  | .str s => .str s
  | .bool b => .bool b
  | .tuple vs => .tuple (forall₂_same_refl vs)

theorem forall₂_same_refl : ∀ vs : List Value, List.Forall₂ Same vs vs
  | [] => .nil
  | v :: vs => .cons (same_refl v) (forall₂_same_refl vs)

end

mutual

theorem Same.eq : ∀ {v w : Value}, v.Same w → v = w
  | _, _, .int _ | _, _, .str _ | _, _, .bool _ => rfl
  | _, _, .tuple h => congrArg Value.tuple (eq_of_forall₂_same h)

theorem eq_of_forall₂_same : ∀ {vs ws : List Value}, List.Forall₂ Same vs ws → vs = ws
  | _, _, .nil => rfl
  | _, _, .cons h hs => by rw [h.eq, eq_of_forall₂_same hs]

end

theorem same_iff {v w : Value} : v.Same w ↔ v = w :=
  ⟨Same.eq, fun h => h ▸ same_refl v⟩

/-! ## Order -/

/-- The code points of a string. -/
def codePoints (s : String) : List Nat := s.toList.map Char.toNat

theorem lex_map_toNat_iff {cs ds : List Char} :
    List.Lex (· < ·) (cs.map Char.toNat) (ds.map Char.toNat) ↔ List.Lex (· < ·) cs ds := by
  induction cs generalizing ds with
  | nil => cases ds <;> simp
  | cons c cs ih =>
    cases ds with
    | nil => simp
    | cons d ds =>
      have hlt : c.toNat < d.toNat ↔ c < d := Iff.rfl
      rw [List.map_cons, List.map_cons, List.cons_lex_cons_iff, List.cons_lex_cons_iff, ih, hlt,
        Char.toNat_inj]

/-- Strings are compared character by character, and characters by their code points. -/
theorem lt_iff_codePoints {s t : String} : s < t ↔ List.Lex (· < ·) (codePoints s) (codePoints t) := by
  rw [codePoints, codePoints, lex_map_toNat_iff]
  exact String.lt_iff

/-- Two integers, or two strings. -/
def Ordered (a b : Value) : Prop :=
  (a.kind = .integer ∧ b.kind = .integer) ∨ (a.kind = .string ∧ b.kind = .string)

/-- The order of integers, and the lexicographic order of strings by code points. -/
inductive Less : Value → Value → Prop
  | int {m n : Int} : m < n → Less (.int m) (.int n)
  | str {s t : String} : List.Lex (· < ·) (codePoints s) (codePoints t) → Less (.str s) (.str t)

theorem less_int_iff {m n : Int} : (int m).Less (int n) ↔ m < n := by
  refine ⟨fun h => ?_, .int⟩
  cases h with
  | int h => exact h

theorem less_str_iff {s t : String} :
    (str s).Less (str t) ↔ List.Lex (· < ·) (codePoints s) (codePoints t) := by
  refine ⟨fun h => ?_, .str⟩
  cases h with
  | str h => exact h

theorem Less.trans {a b c : Value} (hab : a.Less b) (hbc : b.Less c) : a.Less c := by
  cases hab with
  | int hmn =>
    cases hbc with
    | int hnk => exact .int (Int.lt_trans hmn hnk)
  | str hst =>
    cases hbc with
    | str htu =>
      refine .str (lt_iff_codePoints.1 ?_)
      exact String.lt_trans (lt_iff_codePoints.2 hst) (lt_iff_codePoints.2 htu)

theorem compare_string_eq_lt_iff {s t : String} : compare s t = .lt ↔ s < t :=
  compareOfLessAndEq_eq_lt

theorem isSome_order?_iff {a b : Value} : (a.order? b).isSome ↔ a.Ordered b := by
  cases a <;> cases b <;> simp [order?, Ordered, kind]

theorem order?_eq_lt_iff {a b : Value} : a.order? b = some .lt ↔ a.Less b := by
  constructor
  · intro h
    cases a <;> cases b <;> simp only [order?, Option.some.injEq, reduceCtorEq] at h
    · exact .int (Std.compare_eq_lt.1 h)
    · exact .str (lt_iff_codePoints.1 (compare_string_eq_lt_iff.1 h))
  · intro h
    cases h with
    | int hmn => exact congrArg some (Std.compare_eq_lt.2 hmn)
    | str hst => exact congrArg some (compare_string_eq_lt_iff.2 (lt_iff_codePoints.2 hst))

theorem order?_swap (a b : Value) : b.order? a = (a.order? b).map Ordering.swap := by
  cases a with
  | int m =>
    cases b with
    | int n => exact congrArg some Std.OrientedCmp.eq_swap
    | _ => rfl
  | str s =>
    cases b with
    | str t => exact congrArg some Std.OrientedCmp.eq_swap
    | _ => rfl
  | _ => cases b <;> rfl

theorem order?_eq_eq_iff {a b : Value} : a.order? b = some .eq ↔ a.Ordered b ∧ a = b := by
  cases a <;> cases b <;> simp [order?, Ordered, kind]

end Value

namespace Eval

variable {σ : Type}

/-! ## Operators -/

variable {span : Option Span} {m : Machine σ} {a b : Value}

/-- At a place of a program an operator gives a truth value for two values. -/
def Gives (span : Option Span) (m : Machine σ) (operator : String) (a b : Value) (truth : Bool) : Prop :=
  combine span operator a b m = .ok (.bool truth) m

/-- At a place of a program an operator fails because of the kinds of two values. -/
def Mismatches (span : Option Span) (m : Machine σ) (operator : String) (a b : Value) : Prop :=
  ∃ cause, combine span operator a b m = .error (.failure (.atSpan m.lines span cause)) m ∧
    cause.code = "E301"

theorem combine_text (span : Option Span) (op : BinaryOperator) (a b : Value) :
    (combine span op.text a b : Eval σ Value) = settle span (Operation.binary op a b) := by
  unfold combine
  rw [BinaryOperator.ofText?_text]

theorem gives_iff (op : BinaryOperator) {truth : Bool} :
    Gives span m op.text a b truth ↔ Operation.binary op a b = .ok (.bool truth) := by
  unfold Gives
  rw [combine_text]
  cases Operation.binary op a b with
  | ok v => simp [settle, pure, EStateM.pure]
  | error cause => simp [settle, fail]

section

variable (op : BinaryOperator) {f : Ordering → Bool}
  (hop : ∀ a b, Operation.binary op a b = Operation.ordering op a b f)

include hop

theorem gives_ordering_iff {truth : Bool} :
    Gives span m op.text a b truth ↔ ∃ o, a.order? b = some o ∧ f o = truth := by
  rw [gives_iff, hop, Operation.ordering]
  cases a.order? b <;> simp

theorem mismatches_of_not_ordered (h : ¬ a.Ordered b) : Mismatches span m op.text a b := by
  have hnone : a.order? b = none := by
    rw [← Value.isSome_order?_iff] at h
    simpa using h
  refine ⟨.operandMismatch op.text .ordered [a.kind, b.kind], ?_, rfl⟩
  rw [combine_text, hop, Operation.ordering, hnone]
  rfl

end

theorem gives_lt_iff : Gives span m "<" a b true ↔ a.Less b := by
  rw [← Value.order?_eq_lt_iff]
  refine (gives_ordering_iff .lt (f := (· == .lt)) fun _ _ => rfl).trans ?_
  simp

/-- To be greater is to be less the other way round. -/
theorem gives_gt_iff {truth : Bool} : Gives span m ">" a b truth ↔ Gives span m "<" b a truth := by
  refine (gives_ordering_iff .gt (f := (· == .gt)) fun _ _ => rfl).trans
    (Iff.trans ?_ (gives_ordering_iff .lt (f := (· == .lt)) fun _ _ => rfl).symm)
  rw [Value.order?_swap a b]
  rcases a.order? b with _ | (_ | _ | _) <;> simp

/-- Equality never fails, and inequality is its negation. -/
theorem gives_eq_ne (span : Option Span) (m : Machine σ) (a b : Value) :
    Gives span m "==" a b (a = b) ∧ Gives span m "!=" a b (!decide (a = b)) := by
  refine ⟨(gives_iff .eq).2 rfl, (gives_iff .ne).2 ?_⟩
  rw [Operation.binary]
  simp

/-- Where there is an order, one of three cases holds, and all operators agree on it. -/
theorem exists_gives_of_ordered (span : Option Span) (m : Machine σ) (h : a.Ordered b) :
    ∃ less same greater, Gives span m "<" a b less ∧ Gives span m "==" a b same ∧
      Gives span m ">" a b greater ∧ Gives span m "<=" a b (!greater) ∧
      Gives span m ">=" a b (!less) ∧ [less, same, greater].count true = 1 := by
  obtain ⟨o, ho⟩ := Option.isSome_iff_exists.1 (Value.isSome_order?_iff.2 h)
  have hsame : decide (a = b) = (o == .eq) := by
    have heq : o = .eq ↔ a = b := by
      rw [← Option.some_inj, ← ho, Value.order?_eq_eq_iff, and_iff_right h]
    rw [Bool.eq_iff_iff, decide_eq_true_iff, ← heq, beq_iff_eq]
  refine ⟨o == .lt, o == .eq, o == .gt, ?_, hsame ▸ (gives_eq_ne span m a b).1, ?_, ?_, ?_, ?_⟩
  · exact (gives_ordering_iff .lt fun _ _ => rfl).2 ⟨o, ho, rfl⟩
  · exact (gives_ordering_iff .gt fun _ _ => rfl).2 ⟨o, ho, rfl⟩
  · exact (gives_ordering_iff .le fun _ _ => rfl).2 ⟨o, ho, rfl⟩
  · exact (gives_ordering_iff .ge fun _ _ => rfl).2 ⟨o, ho, rfl⟩
  · cases o <;> rfl

/-- The operators that compare values give truth values or fail. Equality never fails: it tells whether two
values have the same kind and the same payload, and inequality is its negation. The four operators of the
order fail together, exactly if the values are neither two integers nor two strings. Otherwise a value is less
than another one, equal to it or greater; at most means not greater, and at least means not less. What is less
than something that is less is less, and strings are compared by code points from the left. -/
theorem comparisons_consistent (span : Option Span) (m : Machine σ) (a b c : Value) :
    (∃ same, Gives span m "==" a b same ∧ Gives span m "!=" a b (!same) ∧
      (same = true ↔ a.Same b)) ∧
    (¬ a.Ordered b → ∀ operator ∈ ["<", "<=", ">", ">="], Mismatches span m operator a b) ∧
    (a.Ordered b → ∃ less same greater, Gives span m "<" a b less ∧ Gives span m "==" a b same ∧
      Gives span m ">" a b greater ∧ Gives span m "<=" a b (!greater) ∧
      Gives span m ">=" a b (!less) ∧ [less, same, greater].count true = 1) ∧
    (∀ truth, Gives span m ">" a b truth ↔ Gives span m "<" b a truth) ∧
    (Gives span m "<" a b true → Gives span m "<" b c true → Gives span m "<" a c true) ∧
    (∀ k n : Int, Gives span m "<" (.int k) (.int n) true ↔ k < n) ∧
    ∀ s t : String, Gives span m "<" (.str s) (.str t) true ↔
      List.Lex (· < ·) (Value.codePoints s) (Value.codePoints t) := by
  refine ⟨?_, fun h => ?_, exists_gives_of_ordered span m, fun _ => gives_gt_iff, ?_, ?_, ?_⟩
  · obtain ⟨heq, hne⟩ := gives_eq_ne span m a b
    exact ⟨decide (a = b), heq, hne, by rw [decide_eq_true_iff, Value.same_iff]⟩
  · simp only [List.forall_mem_cons]
    exact ⟨mismatches_of_not_ordered .lt (fun _ _ => rfl) h,
      mismatches_of_not_ordered .le (fun _ _ => rfl) h,
      mismatches_of_not_ordered .gt (fun _ _ => rfl) h,
      mismatches_of_not_ordered .ge (fun _ _ => rfl) h, List.forall_mem_nil _⟩
  · rw [gives_lt_iff, gives_lt_iff, gives_lt_iff]
    exact Value.Less.trans
  · intro k n
    rw [gives_lt_iff, Value.less_int_iff]
  · intro s t
    rw [gives_lt_iff, Value.less_str_iff]

end Eval

end Scriptlet
