import Mathlib.Tactic.Common
import Mathlib.Tactic.Ring
import Scriptlet.Text.Decimal
import Scriptlet.Text.Quoted

/-!
# Numbers and their digits

Digits are read by their places, `ofDigits`; reading and writing block by block gives the same.

* `ofDigits_toDigits`: the digits of a number denote it, in every base up to sixteen.
* `Decimal.read_eq_ofDigits`: blocks or not, a run of digits is read by its places.
* `Decimal.read_write`: a written number is read back, however long it is.
-/

namespace Scriptlet.Text

/-! ## Digits by their places -/

theorem foldl_digits (base : Nat) (digits : List Char) (start : Nat) :
    digits.foldl (fun n c => base * n + digitValue c) start =
      start * base ^ digits.length + ofDigits base digits := by
  induction digits generalizing start with
  | nil => simp [ofDigits]
  | cons c cs ih =>
    have hcons : ofDigits base (c :: cs) = digitValue c * base ^ cs.length + ofDigits base cs := by
      rw [← ih, ofDigits, List.foldl_cons, Nat.mul_zero, Nat.zero_add]
    rw [List.foldl_cons, ih, List.length_cons, hcons]
    ring

theorem ofDigits_append (base : Nat) (s t : List Char) :
    ofDigits base (s ++ t) = ofDigits base s * base ^ t.length + ofDigits base t := by
  rw [ofDigits, List.foldl_append, foldl_digits, ← ofDigits]

@[simp] theorem ofDigits_nil (base : Nat) : ofDigits base [] = 0 := rfl

theorem ofDigits_singleton (base : Nat) (c : Char) : ofDigits base [c] = digitValue c := by
  simp [ofDigits]

theorem ofDigits_replicate_zero (base n : Nat) : ofDigits base (List.replicate n '0') = 0 := by
  induction n with
  | zero => rfl
  | succ n ih =>
    have hzero : digitValue '0' = 0 := by decide
    rw [List.replicate_succ', ofDigits_append, ih, ofDigits_singleton, hzero, Nat.zero_mul]

theorem digitValue_digitChar : ∀ n < 16, digitValue n.digitChar = n := by decide

theorem ofDigits_toDigits {base : Nat} (h₁ : 1 < base) (h₂ : base ≤ 16) (n : Nat) :
    ofDigits base (Nat.toDigits base n) = n := by
  induction n using Nat.strong_induction_on with
  | _ n ih =>
    rw [Nat.toDigits_eq_if h₁]
    split_ifs with h
    · rw [ofDigits_singleton, digitValue_digitChar n (by omega)]
    · have hlast : n % base < base := Nat.mod_lt _ (by omega)
      rw [ofDigits_append, ih (n / base) (Nat.div_lt_self (by omega) h₁), ofDigits_singleton,
        digitValue_digitChar _ (by omega)]
      simpa [Nat.mul_comm] using Nat.div_add_mod n base

/-- Every digit of a number is one of the base's digits. -/
theorem mem_toDigits {base n : Nat} {c : Char} (hb : 1 < base) (hc : c ∈ Nat.toDigits base n) :
    ∃ d < base, c = d.digitChar := by
  induction n using Nat.strong_induction_on with
  | _ n ih =>
    rw [Nat.toDigits_eq_if hb] at hc
    split_ifs at hc with h
    · exact ⟨n, h, List.mem_singleton.1 hc⟩
    · rcases List.mem_append.1 hc with hc | hc
      · exact ih (n / base) (Nat.div_lt_self (by omega) hb) hc
      · exact ⟨n % base, Nat.mod_lt _ (by omega), List.mem_singleton.1 hc⟩

theorem isDecimal_of_mem_toDigits {n : Nat} {c : Char} (hc : c ∈ Nat.toDigits 10 n) :
    isDecimal c = true := by
  obtain ⟨d, hd, rfl⟩ := mem_toDigits (by decide) hc
  have hall : ∀ d < 10, isDecimal d.digitChar = true := by decide
  exact hall d hd

theorem isHex_of_mem_toDigits {n : Nat} {c : Char} (hc : c ∈ Nat.toDigits 16 n) :
    isHex c = true := by
  obtain ⟨d, hd, rfl⟩ := mem_toDigits (by decide) hc
  have hall : ∀ d < 16, isHex d.digitChar = true := by decide
  exact hall d hd

end Scriptlet.Text

namespace Scriptlet.Decimal

open Scriptlet.Text

theorem power_eq (n : Nat) : power n = 10 ^ n := rfl

/-! ## Reading in blocks -/

theorem readBlocks_eq (value : Nat) (digits : List Char) :
    readBlocks value digits = value * 10 ^ digits.length + ofDigits 10 digits := by
  induction value, digits using readBlocks.induct with
  | case1 value => simp [readBlocks]
  | case2 value digits h block ih =>
    have hsplit : digits = block ++ digits.drop blockSize := (List.take_append_drop _ _).symm
    have hlen : digits.length = block.length + (digits.drop blockSize).length := by
      rw [← List.length_append, ← hsplit]
    have hvalue : ofDigits 10 digits =
        ofDigits 10 block * 10 ^ (digits.drop blockSize).length +
          ofDigits 10 (digits.drop blockSize) := by
      rw [← ofDigits_append, ← hsplit]
    rw [readBlocks, if_neg h, ih, hlen, hvalue, power_eq]
    ring

/-- A run of digits is read by its places. -/
theorem read_eq_ofDigits (digits : List Char) : read digits = ofDigits 10 digits := by
  unfold read
  split_ifs with h
  · rfl
  · rw [readBlocks_eq, Nat.zero_mul, Nat.zero_add]

/-! ## Writing in blocks -/

theorem length_padded {n : Nat} (h : n < power blockSize) : (padded n).length = blockSize := by
  rw [power_eq] at h
  have hlen : (Nat.toDigits 10 n).length ≤ blockSize :=
    (Nat.length_toDigits_le_iff (by decide) (by decide)).2 h
  simp only [padded, List.length_append, List.length_replicate]
  omega

theorem ofDigits_padded (n : Nat) : ofDigits 10 (padded n) = n := by
  rw [padded, ofDigits_append, ofDigits_replicate_zero, Nat.zero_mul, Nat.zero_add,
    ofDigits_toDigits (by decide) (by decide)]

theorem lt_of_mem_blocks {n b : Nat} (h : b ∈ blocks n) : b < power blockSize := by
  induction n using blocks.induct with
  | case1 => simp [blocks] at h
  | case2 n hn ih =>
    rw [blocks, if_neg hn] at h
    rcases List.mem_cons.1 h with rfl | h
    · exact Nat.mod_lt _ (Nat.lt_trans Nat.zero_lt_one (one_lt_power (by decide)))
    · exact ih h

/-- The number that a list of blocks stands for, the most significant block first. -/
def ofBlocks (start : Nat) (bs : List Nat) : Nat :=
  bs.foldl (fun n b => n * power blockSize + b) start

theorem ofBlocks_reverse_blocks (n : Nat) : ofBlocks 0 (blocks n).reverse = n := by
  induction n using blocks.induct with
  | case1 => simp [blocks, ofBlocks]
  | case2 n hn ih =>
    rw [ofBlocks] at ih ⊢
    rw [blocks, if_neg hn, List.reverse_cons, List.foldl_append, ih]
    exact Nat.div_add_mod' n (power blockSize)

theorem ofDigits_flatMap_padded (front : List Char) (bs : List Nat)
    (hbs : ∀ b ∈ bs, b < power blockSize) :
    ofDigits 10 (front ++ bs.flatMap padded) = ofBlocks (ofDigits 10 front) bs := by
  induction bs generalizing front with
  | nil => simp [ofBlocks]
  | cons b bs ih =>
    have hb : b < power blockSize := hbs b List.mem_cons_self
    rw [List.flatMap_cons, ← List.append_assoc, ih _ fun c hc => hbs c (List.mem_cons_of_mem _ hc),
      ofDigits_append, ofDigits_padded, length_padded hb, ← power_eq]
    rfl

theorem ofDigits_writeBlocks (n : Nat) : ofDigits 10 (writeBlocks n) = n := by
  have hvalue := ofBlocks_reverse_blocks n
  have hbound : ∀ b ∈ (blocks n).reverse, b < power blockSize :=
    fun b hb => lt_of_mem_blocks (List.mem_reverse.1 hb)
  unfold writeBlocks
  split
  · next h => rw [h] at hvalue; exact hvalue
  · next top rest h =>
    rw [h] at hvalue hbound
    rw [ofDigits_flatMap_padded _ _ fun b hb => hbound b (List.mem_cons_of_mem _ hb),
      ofDigits_toDigits (by decide) (by decide)]
    simpa [ofBlocks] using hvalue

/-- The digits of a written number denote it. -/
theorem ofDigits_write (n : Nat) : ofDigits 10 (write n) = n := by
  unfold write
  split_ifs
  · exact ofDigits_toDigits (by decide) (by decide) n
  · exact ofDigits_writeBlocks n

/-- A written number is read back. -/
theorem read_write (n : Nat) : read (write n) = n := by
  rw [read_eq_ofDigits, ofDigits_write]

theorem isDecimal_of_mem_padded {n : Nat} {c : Char} (h : c ∈ padded n) : isDecimal c = true := by
  rcases List.mem_append.1 h with h | h
  · rw [List.eq_of_mem_replicate h]
    decide
  · exact isDecimal_of_mem_toDigits h

theorem isDecimal_of_mem_write {n : Nat} {c : Char} (h : c ∈ write n) : isDecimal c = true := by
  unfold write writeBlocks at h
  split_ifs at h
  · exact isDecimal_of_mem_toDigits h
  · split at h
    · simp at h
    · rcases List.mem_append.1 h with h | h
      · exact isDecimal_of_mem_toDigits h
      · obtain ⟨b, _, hb⟩ := List.mem_flatMap.1 h
        exact isDecimal_of_mem_padded hb

theorem write_ne_nil (n : Nat) : write n ≠ [] := by
  unfold write
  split_ifs with h
  · exact Nat.toDigits_ne_nil
  · -- a number that takes blocks is not zero, and an empty text would denote zero
    intro hnil
    have hzero : n = 0 := by rw [← ofDigits_writeBlocks n, hnil, ofDigits_nil]
    rw [hzero, power_eq] at h
    exact h (Nat.pow_pos (by decide))

end Scriptlet.Decimal
