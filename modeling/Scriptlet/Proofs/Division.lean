import Mathlib.Algebra.Order.Ring.Int
import Mathlib.Tactic.Common
import Scriptlet.Proofs.Comparisons

/-!
# Division

Integers are divided toward zero: the magnitudes are divided, and the sign of the quotient is put right
afterwards. The remainder is what the quotient leaves over.

* `Divided a b q r`: `q` and `r` are quotient and remainder of `a` by `b`, said without dividing.
* `Operation.divided_truncate`, `Operation.eq_truncate_of_divided`: the computed pair is one, and the only one.
* `Eval.division_law`: what the operators give, and when they fail.
-/

namespace Scriptlet

/-! ## Quotients and remainders -/

/-- Division of `a` by `b` toward zero gives `q` and leaves `r`. -/
structure Divided (a b q r : Int) : Prop where
  sum : a = q * b + r
  small : |r| < |b|
  signed : r = 0 ∨ r.sign = a.sign

namespace Divided

variable {a b q r : Int}

theorem remainder_nonneg (h : Divided a b q r) (ha : 0 ≤ a) : 0 ≤ r := by
  rcases h.signed with hzero | hsign
  · exact hzero.ge
  · exact Int.sign_nonneg_iff.1 (hsign ▸ Int.sign_nonneg_iff.2 ha)

theorem remainder_nonpos (h : Divided a b q r) (ha : a ≤ 0) : r ≤ 0 := by
  rcases h.signed with hzero | hsign
  · exact hzero.le
  · exact Int.sign_nonpos_iff.1 (hsign ▸ Int.sign_nonpos_iff.2 ha)

/-- A pair that fits is quotient and remainder toward zero. -/
theorem eq_tdiv_tmod (h : Divided a b q r) : q = a.tdiv b ∧ r = a.tmod b := by
  have hb : b ≠ 0 := by
    rintro rfl
    exact absurd h.small (by simp)
  have hsum : r + b * q = a := by
    rw [Int.mul_comm, Int.add_comm]
    exact h.sum.symm
  have hsmall := h.small
  rw [Int.abs_eq_natAbs b, abs_lt] at hsmall
  -- the library says it apart for the two sides of zero
  rcases Int.le_total 0 a with ha | ha
  · obtain ⟨hq, hr⟩ := (Int.tdiv_tmod_unique ha hb).2 ⟨hsum, h.remainder_nonneg ha, hsmall.2⟩
    exact ⟨hq.symm, hr.symm⟩
  · obtain ⟨hq, hr⟩ := (Int.tdiv_tmod_unique' ha hb).2 ⟨hsum, hsmall.1, h.remainder_nonpos ha⟩
    exact ⟨hq.symm, hr.symm⟩

end Divided

namespace Operation

/-! ## The computed pair -/

/-- To divide the magnitudes and mend the sign is to round toward zero. -/
theorem truncate_eq_tdiv (a b : Int) : truncate a b = a.tdiv b := by
  have hnatural (n : Nat) : decide (Int.ofNat n < 0) = false :=
    decide_eq_false (Int.not_lt.2 (Int.natCast_nonneg n))
  have hnegative (n : Nat) : decide (Int.negSucc n < 0) = true :=
    decide_eq_true (Int.negSucc_lt_zero n)
  unfold truncate
  cases a with
  | ofNat k =>
    cases b with
    | ofNat n => rw [hnatural, hnatural]; rfl
    | negSucc n => rw [hnatural, hnegative]; rfl
  | negSucc k =>
    cases b with
    | ofNat n => rw [hnegative, hnatural]; rfl
    | negSucc n => rw [hnegative, hnegative]; rfl

theorem sub_mul_truncate (a b : Int) : a - b * truncate a b = a.tmod b := by
  rw [truncate_eq_tdiv, Int.tmod_def]

/-- The magnitude of the quotient is the quotient of the magnitudes, rounded down. -/
theorem natAbs_truncate (a b : Int) : (truncate a b).natAbs = a.natAbs / b.natAbs := by
  rw [truncate_eq_tdiv]
  exact Int.natAbs_tdiv a b

theorem divided_truncate (a : Int) {b : Int} (hb : b ≠ 0) :
    Divided a b (truncate a b) (a - b * truncate a b) where
  sum := by
    rw [Int.mul_comm]
    omega
  small := by
    rw [sub_mul_truncate, Int.abs_eq_natAbs, Int.abs_eq_natAbs, Int.natAbs_tmod, Int.ofNat_lt]
    exact Nat.mod_lt _ (Int.natAbs_pos.2 hb)
  signed := by
    rw [sub_mul_truncate, Int.sign_tmod]
    split_ifs with hdvd
    · exact .inl (Int.tmod_eq_zero_of_dvd hdvd)
    · exact .inr rfl

/-- The computed pair is the only one. -/
theorem eq_truncate_of_divided {a b q r : Int} (h : Divided a b q r) :
    q = truncate a b ∧ r = a - b * truncate a b := by
  rw [sub_mul_truncate, truncate_eq_tdiv]
  exact h.eq_tdiv_tmod

end Operation

namespace Eval

variable {σ : Type}

/-! ## Operators -/

variable {span : Option Span} {m : Machine σ} {a b n : Int}

/-- At a place of a program an operator gives an integer for two integers. -/
def Computes (span : Option Span) (m : Machine σ) (operator : String) (a b n : Int) : Prop :=
  combine span operator (.int a) (.int b) m = .ok (.int n) m

/-- At a place of a program an operator fails for two integers as a division by zero does. -/
def DividesByZero (span : Option Span) (m : Machine σ) (operator : String) (a b : Int) : Prop :=
  ∃ cause, combine span operator (.int a) (.int b) m = .error (.failure (.atSpan m.lines span cause)) m ∧
    cause.code = "E302"

section

variable (op : BinaryOperator) {f : Int → Int → Option Int}
  (hop : ∀ v w, Operation.binary op v w = Operation.arithmetic op v w f)

include hop

theorem computes_iff : Computes span m op.text a b n ↔ f a b = some n := by
  unfold Computes
  rw [combine_text, hop, Operation.arithmetic]
  cases f a b with
  | some k => simp [settle, pure, EStateM.pure]
  | none => simp [settle, fail]

theorem dividesByZero_iff : DividesByZero span m op.text a b ↔ f a b = none := by
  unfold DividesByZero
  rw [combine_text, hop, Operation.arithmetic]
  cases f a b with
  | some k => simp [settle, pure, EStateM.pure]
  | none => exact iff_of_true ⟨_, rfl, rfl⟩ rfl

end

/-- Division and remainder of two integers fail with a zero divisor and with no other. Otherwise they give a
quotient and a remainder that make up the dividend, the remainder being less in magnitude than the divisor
and zero or of the dividend's sign; the magnitude of the quotient is the quotient of the magnitudes, rounded
down. There is no other such pair. -/
theorem division_law (span : Option Span) (m : Machine σ) (a b : Int) :
    (DividesByZero span m "/" a b ↔ b = 0) ∧ (DividesByZero span m "%" a b ↔ b = 0) ∧
    (b ≠ 0 → ∃ q r, Computes span m "/" a b q ∧ Computes span m "%" a b r ∧
      Divided a b q r ∧ q.natAbs = a.natAbs / b.natAbs ∧
      ∀ q' r', Divided a b q' r' → q' = q ∧ r' = r) := by
  refine ⟨?_, ?_, fun hb => ?_⟩
  · refine (dividesByZero_iff .div fun _ _ => rfl).trans ?_
    simp [Operation.quotient?]
  · refine (dividesByZero_iff .mod fun _ _ => rfl).trans ?_
    simp [Operation.remainder?]
  · refine ⟨_, _, (computes_iff .div fun _ _ => rfl).2 (if_neg hb),
      (computes_iff .mod fun _ _ => rfl).2 (if_neg hb), Operation.divided_truncate a hb,
      Operation.natAbs_truncate a b, ?_⟩
    intro q' r' h
    exact Operation.eq_truncate_of_divided h

end Eval

end Scriptlet
