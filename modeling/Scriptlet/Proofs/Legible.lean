import Scriptlet.Proofs.ReadBack
import Scriptlet.Syntax.Outline

/-!
# Legible texts

What stands in a rendered tree can be told from its surroundings: names and operators have no
characters that need an escape, a name ends where no name character comes, and a literal is told from
its text since the scanner reads it back. A text of several lines is told from its lines if none of
them has a line feed in it.

* `Text.eq_of_intercalate`, `Text.quote_of_isPlain`, `Value.eq_of_text`.
* `Node.Legible`: trees whose texts are of this kind, in any arrangement.
-/

namespace Scriptlet

/-! ## Parts of texts -/

namespace Text

/-- A separator that occurs in neither front part divides in one way. -/
theorem append_cons_inj {a : Char} {s s' t t' : List Char} (hs : a ∉ s) (hs' : a ∉ s')
    (h : s ++ a :: t = s' ++ a :: t') : s = s' ∧ t = t' := by
  have hsplit := congrArg (List.splitOn a) h
  rw [List.splitOn_append_cons_self_of_not_mem hs, List.splitOn_append_cons_self_of_not_mem hs']
    at hsplit
  obtain ⟨rfl, -⟩ := List.cons.inj hsplit
  exact ⟨rfl, (List.cons.inj (List.append_cancel_left h)).2⟩

/-- Lines without line feeds can be read off the text that they make. -/
theorem splitOn_intercalate {ls : List String} (hls : ∀ l ∈ ls, '\n' ∉ l.toList) (hne : ls ≠ []) :
    ("\n".intercalate ls).toList.splitOn '\n' = ls.map String.toList := by
  rw [String.toList_intercalate]
  exact List.splitOn_intercalate '\n' (by simpa using hls) (by simpa using hne)

theorem eq_of_intercalate {ls ls' : List String} (hls : ∀ l ∈ ls, '\n' ∉ l.toList)
    (hls' : ∀ l ∈ ls', '\n' ∉ l.toList) (hne : ls ≠ []) (hne' : ls' ≠ [])
    (h : "\n".intercalate ls = "\n".intercalate ls') : ls = ls' := by
  have hmap : ls.map String.toList = ls'.map String.toList := by
    rw [← splitOn_intercalate hls hne, ← splitOn_intercalate hls' hne', h]
  exact List.map_injective_iff.2 (fun _ _ => String.toList_inj.1) hmap

/-! ## Plain text -/

/-- Characters that stand for themselves between quotes. -/
def isPlainChar (c : Char) : Bool :=
  0x20 ≤ c.toNat && c.toNat < 0x7f && c != '\'' && c != '\\'

/-- Does the text need no escapes? -/
def IsPlain (s : String) : Prop := s.toList.all isPlainChar = true

instance (s : String) : Decidable (IsPlain s) :=
  inferInstanceAs (Decidable (s.toList.all isPlainChar = true))

theorem isPlainChar_iff {c : Char} :
    isPlainChar c = true ↔ 0x20 ≤ c.toNat ∧ c.toNat < 0x7f ∧ c ≠ '\'' ∧ c ≠ '\\' := by
  simp [isPlainChar, and_assoc]

/-- All ranges of characters that are not printable end below the blank or begin above the tilde. -/
theorem isPrintable_of_isPlainChar {c : Char} (h : isPlainChar c = true) : isPrintable c = true := by
  obtain ⟨hlow, hhigh, -⟩ := isPlainChar_iff.1 h
  have hranges : ∀ r ∈ unprintable, r.2 < 0x20 ∨ 0x7f ≤ r.1 := by decide +kernel
  rw [isPrintable, Bool.not_eq_true', Bool.eq_false_iff]
  intro hholds
  obtain ⟨r, hr, hfirst, hlast⟩ := CodeRange.holds_iff.1 hholds
  have := hranges r hr
  omega

theorem quotedChar_of_isPlainChar {c : Char} (h : isPlainChar c = true) :
    quotedChar '\'' c = [c] := by
  obtain ⟨hlow, hhigh, hquote, hbackslash⟩ := isPlainChar_iff.1 h
  have hne (d : Char) (hd : d.toNat < 0x20) : c ≠ d := by
    rintro rfl
    omega
  have hfeed := hne '\n' (by decide)
  have hreturn := hne '\r' (by decide)
  have htab := hne '\t' (by decide)
  simp [quotedChar, hquote, hbackslash, hfeed, hreturn, htab, isPrintable_of_isPlainChar h]

/-- Plain text stands between quotes as it is. -/
theorem quote_of_isPlain {s : String} (h : IsPlain s) :
    quote s = String.ofList ('\'' :: s.toList ++ ['\'']) := by
  have hplain : ∀ c ∈ s.toList, isPlainChar c = true := List.all_eq_true.1 h
  have hmark : quoteMark s.toList = '\'' := by
    have hquote : s.toList.contains '\'' = false := by
      rw [List.contains_eq_mem, decide_eq_false_iff_not]
      intro hmem
      exact (isPlainChar_iff.1 (hplain _ hmem)).2.2.1 rfl
    rw [quoteMark, hquote]
    rfl
  have hbody : s.toList.flatMap (quotedChar '\'') = s.toList := by
    rw [List.flatMap_congr fun c hc => quotedChar_of_isPlainChar (hplain c hc)]
    exact List.flatMap_singleton' _
  rw [quote, hmark, hbody]

theorem eq_of_quote {s s' : String} (hs : IsPlain s) (hs' : IsPlain s') (h : quote s = quote s') :
    s = s' := by
  rw [quote_of_isPlain hs, quote_of_isPlain hs', String.ofList_inj] at h
  exact String.toList_inj.1 (List.append_cancel_right (List.cons.inj h).2)

end Text

/-! ## Names -/

namespace Lexical

open Scriptlet.Token Scriptlet.Text

theorem isPlainChar_of_isNameChar {c : Char} (h : isNameChar c = true) : isPlainChar c = true := by
  have hmarks : c ≠ '\'' ∧ c ≠ '\\' := by
    refine ⟨?_, ?_⟩
    · rintro rfl
      revert h
      decide
    · rintro rfl
      revert h
      decide
  simp only [isNameChar, isNameStart, isDecimal, Bool.or_eq_true, Bool.and_eq_true,
    decide_eq_true_eq, beq_iff_eq, Char.le_def, UInt32.le_iff_toNat_le, Char.toNat_val,
    Char.reduceToNat] at h
  rw [isPlainChar_iff]
  rcases h with ((h | h) | rfl) | h
  · exact ⟨by omega, by omega, hmarks⟩
  · exact ⟨by omega, by omega, hmarks⟩
  · decide
  · exact ⟨by omega, by omega, hmarks⟩

theorem IsName.isNameChar {n : String} (h : IsName n) : ∀ c ∈ n.toList, isNameChar c = true :=
  h.1.mem

theorem IsName.isPlain {n : String} (h : IsName n) : IsPlain n :=
  List.all_eq_true.2 fun c hc => isPlainChar_of_isNameChar (h.isNameChar c hc)

theorem IsName.not_mem {n : String} (h : IsName n) {c : Char} (hc : Token.isNameChar c = false) :
    c ∉ n.toList := by
  intro hmem
  rw [h.isNameChar c hmem] at hc
  cases hc

end Lexical

/-! ## Literals -/

namespace Value

open Scriptlet.Text

/-- The values that one token writes. -/
inductive IsLiteral : Value → Prop
  | int (n : Nat) : IsLiteral (.int n)
  | str (s : String) : IsLiteral (.str s)
  | bool (b : Bool) : IsLiteral (.bool b)

/-- The tokens of a value can be told from its text, since the scanner finds them. -/
theorem kinds_of_chars {printable : Char → Bool} {v v' : Value}
    (h : v.chars printable = v'.chars printable) : v.kinds = v'.kinds := by
  have hscans (v : Value) : Token.Scans (v.chars printable) v.kinds := by
    have h := Token.scans_chars printable v (.inl rfl) Token.scans_nil
    rwa [List.append_nil, List.append_nil] at h
  obtain ⟨ts, hts, hkinds⟩ := hscans v default
  obtain ⟨ts', hts', hkinds'⟩ := hscans v' default
  rw [h, hts'] at hts
  cases hts
  exact List.append_cancel_right (hkinds.symm.trans hkinds')

theorem eq_of_text {v v' : Value} (hv : v.IsLiteral) (hv' : v'.IsLiteral) (h : v.text = v'.text) :
    v = v' := by
  have hkinds := kinds_of_chars (String.ofList_inj.1 h)
  cases hv with
  | int n =>
    cases hv' with
    | int n' => cases hkinds; rfl
    | str | bool => cases hkinds
  | str s =>
    cases hv' with
    | str s' => cases hkinds; rfl
    | int | bool => cases hkinds
  | bool b =>
    cases hv' with
    | bool b' => cases hkinds; rfl
    | int | str => cases hkinds

theorem not_mem_literalChar (printable : Char → Bool) (c : Char) :
    '\n' ∉ literalChar printable c := by
  have hhex : '\n' ∉ hex 1 c.toNat := by
    rw [Token.hex_one]
    intro hmem
    exact absurd (isHex_of_mem_toDigits hmem) (by decide)
  unfold literalChar
  simp only [beq_iff_eq]
  split_ifs with _ _ hfeed
  · decide
  · decide
  · decide
  · decide
  · decide
  · decide
  · simpa using Ne.symm hfeed
  · simpa using hhex

theorem not_mem_text {v : Value} (hv : v.IsLiteral) : '\n' ∉ v.text.toList := by
  rw [text, String.toList_ofList]
  cases hv with
  | int n =>
    rw [chars]
    intro hmem
    have hdecimal : isDecimal '\n' = true := Decimal.isDecimal_of_mem_write hmem
    exact absurd hdecimal (by decide)
  | str s => simp [chars, not_mem_literalChar]
  | bool b => cases b <;> decide

end Value

/-! ## Trees -/

namespace Node

open Scriptlet.Lexical Scriptlet.Text

/-- Trees with names that can be written, plain operators and literals of one token, in any
arrangement. -/
inductive Legible : Node → Prop
  | literal (span : Option Span) {v : Value} : v.IsLiteral → Legible (.literal span v)
  | name (span : Option Span) {n : String} : IsName n → Legible (.name span n)
  | unary (span : Option Span) {op : String} {a : Node} : IsPlain op → Legible a →
      Legible (.unary span op a)
  | binary (span : Option Span) {op : String} {a b : Node} : IsPlain op → Legible a → Legible b →
      Legible (.binary span a op b)
  | tuple (span : Option Span) {es : List Node} : (∀ e ∈ es, Legible e) → Legible (.tuple span es)
  | index (span : Option Span) {a b : Node} : Legible a → Legible b → Legible (.index span a b)
  | path (span : Option Span) {m f : String} : IsName m → IsName f → Legible (.path span m f)
  | call (span : Option Span) {f : Node} {es : List Node} : Legible f → (∀ e ∈ es, Legible e) →
      Legible (.call span f es)
  | binding (span : Option Span) {n : String} {a : Node} : IsName n → Legible a →
      Legible (.binding span n a)
  | expression (span : Option Span) {a : Node} : Legible a → Legible (.expression span a)
  | block (span : Option Span) {es : List Node} : (∀ e ∈ es, Legible e) → Legible (.block span es)
  | use (span : Option Span) {m f : String} {newName : Option String} : IsName m → IsName f →
      (∀ n ∈ newName, IsName n) → Legible (.use span m f newName)
  | program (span : Option Span) {es : List Node} : (∀ e ∈ es, Legible e) →
      Legible (.program span es)

theorem isPlain_symbol (s : Symbol) : IsPlain s.text := by cases s <;> decide

theorem isPlain_operator (op : BinaryOperator) : IsPlain op.text := by cases op <;> decide

theorem IsCallee.legible {f : Node} (h : f.IsCallee IsName) : f.Legible := by
  cases h with
  | name span hn => exact .name span hn
  | path span hm hf => exact .path span hm hf

theorem IsExpression.legible {e : Node} (h : e.IsExpression IsName) : e.Legible := by
  induction h with
  | int span n => exact .literal span (.int n)
  | str span s => exact .literal span (.str s)
  | bool span b => exact .literal span (.bool b)
  | name span hn => exact .name span hn
  | unary span _ _ ih => exact .unary span (isPlain_symbol _) ih
  | binary span op _ _ iha ihb => exact .binary span (isPlain_operator op) iha ihb
  | tuple span _ ih => exact .tuple span ih
  | index span _ _ iha ihb => exact .index span iha ihb
  | call span hf _ ih => exact .call span hf.legible ih

theorem IsStatement.legible {s : Node} (h : s.IsStatement IsName) : s.Legible := by
  induction h with
  | expression span he => exact .expression span he.legible
  | binding span hn he => exact .binding span hn he.legible
  | block span _ ih => exact .block span ih
  | use span hm hf hn => exact .use span hm hf hn

end Node

/-- A program that is read from source text is legible. -/
theorem Program.legible_of_ofSourceWithin {limit : Nat} {source : String} {p : Program}
    (h : ofSourceWithin limit source = .ok p) : p.node.Legible := by
  unfold ofSourceWithin at h
  split at h
  · cases h
  · next tokens htokens =>
    split at h
    · next q hread =>
      cases h
      have hstatements :=
        isStatement_of_read (fun t ht n hn => isName_of_ofSource htokens ht hn) hread
      exact .program _ fun s hs => (hstatements s hs).legible
    · cases h

end Scriptlet
