import Scriptlet.Proofs.Numerals

/-!
# Decimal texts

Every integer has one decimal text. Reading in blocks gives the value of a text by its places, and writing in
blocks gives the one text of a number; both without a bound on its length.

* `placeValue`: the value of digits by their places.
* `Canonical n digits`: the digits denote `n`, and no zero leads them; `canonical_iff` says which they are.
* `writeBlocks_eq_toDigits`: blocks, padded and put together, are the digits of the number.
* `conversions_exact`: reading and writing are exact, and a written number is read back.
-/

namespace Scriptlet.Decimal

open Scriptlet.Text

/-! ## Digits by their places -/

/-- The value of decimal digits: each one counts for the power of ten of its place. -/
def placeValue : List Char → Nat
  | [] => 0
  | c :: cs => (c.toNat - '0'.toNat) * 10 ^ cs.length + placeValue cs

theorem ofDigits_eq_placeValue {digits : List Char} (h : ∀ c ∈ digits, isDecimal c = true) :
    ofDigits 10 digits = placeValue digits := by
  induction digits with
  | nil => rfl
  | cons c cs ih =>
    have hc : digitValue c = c.toNat - '0'.toNat := if_pos (h c List.mem_cons_self)
    have hcs := ih fun d hd => h d (List.mem_cons_of_mem c hd)
    rw [← List.singleton_append, ofDigits_append, ofDigits_singleton, hc, hcs]
    rfl

/-- A decimal digit is that of its value. -/
theorem exists_digitChar {c : Char} (h : isDecimal c = true) :
    ∃ d < 10, c = d.digitChar ∧ c.toNat - '0'.toNat = d := by
  obtain ⟨hlow, hhigh⟩ : 48 ≤ c.toNat ∧ c.toNat ≤ 57 := by
    simpa [isDecimal, Char.le_def, UInt32.le_iff_toNat_le] using h
  refine ⟨c.toNat - 48, by omega, ?_, rfl⟩
  rw [← Char.toNat_inj, Nat.toNat_digitChar_of_lt_ten (by omega)]
  omega

/-- Digits that follow those of a positive number make the digits of a larger one. -/
theorem toDigits_append {n : Nat} (hn : 0 < n) {cs : List Char} (h : ∀ c ∈ cs, isDecimal c = true) :
    Nat.toDigits 10 n ++ cs = Nat.toDigits 10 (n * 10 ^ cs.length + placeValue cs) := by
  induction cs generalizing n with
  | nil => simp [placeValue]
  | cons c cs ih =>
    obtain ⟨d, hd, hc, hvalue⟩ := exists_digitChar (h c List.mem_cons_self)
    have hstep : Nat.toDigits 10 n ++ [c] = Nat.toDigits 10 (10 * n + d) := by
      rw [hc, ← Nat.toDigits_of_lt_base hd]
      exact Nat.toDigits_append_toDigits (by decide) hn hd
    have hcs : ∀ e ∈ cs, isDecimal e = true := fun e he => h e (List.mem_cons_of_mem c he)
    calc Nat.toDigits 10 n ++ c :: cs
        = (Nat.toDigits 10 n ++ [c]) ++ cs := by rw [List.append_assoc, List.singleton_append]
      _ = Nat.toDigits 10 ((10 * n + d) * 10 ^ cs.length + placeValue cs) := by
        rw [hstep, ih (by omega) hcs]
      _ = Nat.toDigits 10 (n * 10 ^ (c :: cs).length + placeValue (c :: cs)) := by
        rw [placeValue, hvalue, List.length_cons]
        ring_nf

/-! ## The one text of a number -/

/-- The decimal digits of `n`, without zeros in front. -/
structure Canonical (n : Nat) (digits : List Char) : Prop where
  nonempty : digits ≠ []
  decimal : ∀ c ∈ digits, isDecimal c = true
  value : placeValue digits = n
  trimmed : digits.head? = some '0' → digits = ['0']

/-- Only zero is written with a zero in front. -/
theorem head?_toDigits {n : Nat} (h : (Nat.toDigits 10 n).head? = some '0') :
    Nat.toDigits 10 n = ['0'] := by
  induction n using Nat.strong_induction_on with
  | _ n ih =>
    rw [Nat.toDigits_eq_if (by decide)] at h ⊢
    split_ifs at h ⊢ with hn
    · rw [List.head?_singleton, Option.some_inj] at h
      rw [h]
    · -- the digits before the last one are those of a positive number
      obtain ⟨c, cs, hcons⟩ := List.exists_cons_of_ne_nil (Nat.toDigits_ne_nil (b := 10) (n := n / 10))
      rw [hcons] at h
      have hfront := ih (n / 10) (by omega) (hcons ▸ h)
      have hzero : n / 10 = 0 := by
        have hvalue : ofDigits 10 (Nat.toDigits 10 (n / 10)) = n / 10 :=
          ofDigits_toDigits (by decide) (by decide) (n / 10)
        rw [hfront] at hvalue
        exact hvalue.symm
      omega

theorem canonical_toDigits (n : Nat) : Canonical n (Nat.toDigits 10 n) where
  nonempty := Nat.toDigits_ne_nil
  decimal := fun _ => isDecimal_of_mem_toDigits
  value := by
    rw [← ofDigits_eq_placeValue fun _ => isDecimal_of_mem_toDigits,
      ofDigits_toDigits (by decide) (by decide)]
  trimmed := head?_toDigits

theorem canonical_iff {n : Nat} {digits : List Char} :
    Canonical n digits ↔ digits = Nat.toDigits 10 n := by
  refine ⟨fun h => ?_, fun h => h ▸ canonical_toDigits n⟩
  rw [← h.value]
  cases digits with
  | nil => exact absurd rfl h.nonempty
  | cons c cs =>
    by_cases hzero : c = '0'
    · rw [h.trimmed (congrArg some hzero)]
      decide
    · obtain ⟨d, hd, hc, hvalue⟩ := exists_digitChar (h.decimal c List.mem_cons_self)
      have hpos : 0 < d := by
        rcases Nat.eq_zero_or_pos d with rfl | hpos
        · exact absurd hc hzero
        · exact hpos
      have hdigits := toDigits_append hpos fun e he => h.decimal e (List.mem_cons_of_mem c he)
      rw [Nat.toDigits_of_lt_base hd, ← hc, List.singleton_append] at hdigits
      rw [placeValue, hvalue]
      exact hdigits

/-! ## Blocks -/

/-- The most significant block is not zero. -/
theorem top_pos {n top : Nat} {rest : List Nat} (h : (blocks n).reverse = top :: rest) : 0 < top := by
  induction n using blocks.induct generalizing rest with
  | case1 => simp [blocks] at h
  | case2 n hn ih =>
    rw [blocks, if_neg hn, List.reverse_cons] at h
    cases hfront : (blocks (n / power blockSize)).reverse with
    | cons b bs =>
      rw [hfront, List.cons_append, List.cons.injEq] at h
      exact ih (h.1 ▸ hfront)
    | nil =>
      -- the number is its only block
      have hquotient : n / power blockSize = 0 := by
        rw [← ofBlocks_reverse_blocks (n / power blockSize), hfront]
        rfl
      have hsum := Nat.div_add_mod n (power blockSize)
      rw [hquotient, Nat.mul_zero, Nat.zero_add] at hsum
      rw [hfront, List.nil_append, List.cons.injEq, hsum] at h
      omega

/-- Written in blocks or at once, a number has the same digits. -/
theorem writeBlocks_eq_toDigits {n : Nat} (hn : n ≠ 0) : writeBlocks n = Nat.toDigits 10 n := by
  have hvalue := ofDigits_writeBlocks n
  unfold writeBlocks at hvalue ⊢
  cases hblocks : (blocks n).reverse with
  | nil =>
    rw [hblocks] at hvalue
    exact absurd hvalue.symm hn
  | cons top rest =>
    rw [hblocks] at hvalue
    dsimp only at hvalue ⊢
    have hdecimal : ∀ c ∈ rest.flatMap padded, isDecimal c = true := by
      intro c hc
      obtain ⟨b, -, hb⟩ := List.mem_flatMap.1 hc
      exact isDecimal_of_mem_padded hb
    rw [ofDigits_append, ofDigits_toDigits (by decide) (by decide), ofDigits_eq_placeValue hdecimal]
      at hvalue
    rw [toDigits_append (top_pos hblocks) hdecimal, hvalue]

/-! ## Integers -/

/-- Digits after a minus sign, if the integer is negative. -/
def withSign (n : Int) (digits : List Char) : List Char := if n < 0 then '-' :: digits else digits

theorem withSign_ofNat (k : Nat) (digits : List Char) : withSign (.ofNat k) digits = digits :=
  if_neg (Int.not_lt.2 (Int.natCast_nonneg k))

theorem withSign_negSucc (k : Nat) (digits : List Char) :
    withSign (.negSucc k) digits = '-' :: digits :=
  if_pos (Int.negSucc_lt_zero k)

/-- The decimal text of an integer. -/
def IsText (n : Int) (text : List Char) : Prop :=
  ∃ digits, Canonical n.natAbs digits ∧ text = withSign n digits

/-- The text of an integer, written block by block whatever its size is. -/
def blockText (n : Int) : List Char := withSign n (writeBlocks n.natAbs)

theorem ofList_withSign_toDigits (n : Int) :
    String.ofList (withSign n (Nat.toDigits 10 n.natAbs)) = toString n := by
  cases n with
  | ofNat k =>
    rw [withSign_ofNat]
    exact Nat.toString_eq_ofList_toDigits.symm
  | negSucc k =>
    rw [withSign_negSucc, ← List.singleton_append, String.ofList_append]
    exact congrArg ("-" ++ ·) Nat.toString_eq_ofList_toDigits.symm

theorem signed_eq_withSign (n : Int) : signed n = withSign n (write n.natAbs) := by
  cases n with
  | ofNat k => exact (withSign_ofNat k _).symm
  | negSucc k => exact (withSign_negSucc k _).symm

theorem isText_iff {n : Int} {text : List Char} :
    IsText n text ↔ text = withSign n (Nat.toDigits 10 n.natAbs) := by
  unfold IsText
  simp only [canonical_iff, exists_eq_left]

theorem blockText_eq {n : Int} (hn : n ≠ 0) : blockText n = withSign n (Nat.toDigits 10 n.natAbs) := by
  rw [blockText, writeBlocks_eq_toDigits (Int.natAbs_ne_zero.2 hn)]

/-- Small integers are written at once and large ones in blocks. -/
theorem ofInt_eq_ite (n : Int) :
    ofInt n = if n.natAbs < power plainLimit then toString n else String.ofList (blockText n) := by
  rw [ofInt, signed_eq_withSign, write]
  split_ifs
  · exact ofList_withSign_toDigits n
  · rfl

/-- Decimal conversion is exact at every length. Reading gives the value of the digits by their places, zeros
in front included. Writing in blocks gives the one decimal text of an integer that is not zero, with a minus
sign if it is negative and without a zero in front; it is the text that is written at once for smaller
integers. A written natural number is read back. -/
theorem conversions_exact :
    (∀ digits, digits ≠ [] → (∀ c ∈ digits, isDecimal c = true) → read digits = placeValue digits) ∧
    (∀ n : Int, n ≠ 0 → (∀ text, IsText n text ↔ text = blockText n) ∧
      String.ofList (blockText n) = toString n) ∧
    (∀ n : Int, ofInt n =
      if n.natAbs < power plainLimit then toString n else String.ofList (blockText n)) ∧
    ∀ n : Nat, read (ofInt n).toList = n := by
  refine ⟨fun digits _ hdigits => ?_, fun n hn => ⟨fun text => ?_, ?_⟩, ofInt_eq_ite, fun n => ?_⟩
  · rw [read_eq_ofDigits, ofDigits_eq_placeValue hdigits]
  · rw [isText_iff, blockText_eq hn]
  · rw [blockText_eq hn, ofList_withSign_toDigits]
  · rw [ofInt, String.toList_ofList]
    exact read_write n

end Scriptlet.Decimal
