import Mathlib.Data.List.Induction
import Scriptlet.Proofs.Lexing

/-!
# Positions

The scanner computes positions from the pieces that it cuts off. They are the positions that can be read
off the source text: a location has the number of characters before it as its offset, the line feeds among
them give its line, and the last of these its column.

* `Location.IsIn source l`: `l` is a place of the source text with the right line and column.
* `Token.IsIn source t`: the lexeme of `t` is the part of the source text that its span names.
* `Tiles source n tokens`: from the offset `n` on, only blanks and comments stand between the tokens.
* `piece_fault`: what a fault blames is a part of the text.
* `stream_tiled`: all of this holds of the tokens of a source text and of its first failure.
-/

namespace Scriptlet

open Scriptlet.Text

/-! ## Locations -/

namespace Location

/-- The offset after the last line feed of a text. -/
def lineStart (text : List Char) : Nat := (text.reverse.dropWhile (· != '\n')).length

/-- A place of a source text: its line is counted by the line feeds before it, and its column from the
last one of them. -/
structure IsIn (source : List Char) (l : Location) : Prop where
  offset_le : l.offset ≤ source.length
  line_eq : l.line = 1 + (source.take l.offset).count '\n'
  column_eq : l.column + lineStart (source.take l.offset) = l.offset + 1

theorem after_concat (l : Location) (text : List Char) (c : Char) :
    l.after (text ++ [c]) = (l.after text).step c := by
  rw [after_append, after_cons, after_nil]

theorem lineStart_concat (text : List Char) (c : Char) :
    lineStart (text ++ [c]) = if c = '\n' then text.length + 1 else lineStart text := by
  unfold lineStart
  rw [List.reverse_append, List.reverse_singleton, List.singleton_append, List.dropWhile_cons]
  by_cases hc : c = '\n'
  · simp [hc]
  · simp [hc]

theorem offset_after (l : Location) (text : List Char) :
    (l.after text).offset = l.offset + text.length := by
  induction text generalizing l with
  | nil => rfl
  | cons c text ih =>
    have hstep : (l.step c).offset = l.offset + 1 := by
      unfold step
      split_ifs <;> rfl
    rw [after_cons, ih, hstep, List.length_cons]
    omega

theorem offset_after_first (text : List Char) : (first.after text).offset = text.length := by
  rw [offset_after]
  exact Nat.zero_add _

theorem line_after (l : Location) (text : List Char) :
    (l.after text).line = l.line + text.count '\n' := by
  induction text generalizing l with
  | nil => rfl
  | cons c text ih =>
    rw [after_cons, ih, List.count_cons]
    unfold step
    by_cases hc : c = '\n'
    · simp only [hc, if_true, beq_self_eq_true]
      omega
    · simp [hc]

theorem column_after_first (text : List Char) :
    (first.after text).column + lineStart text = text.length + 1 := by
  induction text using List.reverseRecOn with
  | nil => rfl
  | append_singleton text c ih =>
    rw [after_concat, lineStart_concat, List.length_append, List.length_singleton]
    unfold step
    by_cases hc : c = '\n'
    · simp only [hc, if_true]
      omega
    · simp only [hc, if_false]
      omega

/-- The place after a beginning of a source text. -/
theorem isIn_after (before rest : List Char) : (first.after before).IsIn (before ++ rest) := by
  have htake : (before ++ rest).take (first.after before).offset = before := by
    rw [offset_after_first, List.take_left]
  refine ⟨?_, ?_, ?_⟩
  · rw [offset_after_first, List.length_append]
    omega
  · rw [htake, line_after]
    rfl
  · rw [htake, column_after_first, offset_after_first]

end Location

/-! ## Spans -/

namespace Span

/-- A range of a source text. -/
structure IsIn (source : List Char) (s : Span) : Prop where
  start : s.start.IsIn source
  stop : s.stop.IsIn source
  ordered : s.start.offset ≤ s.stop.offset

/-- The part of a source text that a span names. -/
def slice (source : List Char) (s : Span) : List Char :=
  (source.take s.stop.offset).drop s.start.offset

/-- The range from one place of a source text to a later one. -/
def covering (before inside : List Char) : Span :=
  ⟨Location.first.after before, (Location.first.after before).after inside⟩

theorem isIn_covering (before inside rest : List Char) :
    (covering before inside).IsIn (before ++ inside ++ rest) := by
  refine ⟨?_, ?_, ?_⟩
  · rw [List.append_assoc]
    exact Location.isIn_after before (inside ++ rest)
  · rw [covering, ← Location.after_append]
    exact Location.isIn_after (before ++ inside) rest
  · change (Location.first.after before).offset ≤ _
    rw [covering, Location.offset_after _ inside]
    omega

theorem slice_covering (before inside rest : List Char) :
    (covering before inside).slice (before ++ inside ++ rest) = inside := by
  rw [slice, covering, ← Location.after_append, Location.offset_after_first,
    Location.offset_after_first, List.take_left, List.drop_left]

end Span

/-! ## Faults -/

namespace Token

theorem numberTail_begins (text : List Char) : numberTail text <+: text := by
  fun_induction numberTail text with
  | case1 => exact List.prefix_refl _
  | case2 c cs _ ih => exact (List.prefix_cons_inj c).2 ih
  | case3 => exact List.nil_prefix

theorem takeWhile_append_begins (p : Char → Bool) {text more : List Char}
    (h : more <+: text.dropWhile p) : text.takeWhile p ++ more <+: text := by
  have happend := (List.prefix_append_right_inj (text.takeWhile p)).2 h
  rwa [List.takeWhile_append_dropWhile] at happend

theorem decimalNumber_fault {text before blamed : List Char} {cause : Cause}
    (h : decimalNumber text = .fault cause before blamed) : before ++ blamed <+: text := by
  unfold decimalNumber badNumber at h
  dsimp only at h
  split_ifs at h
  · cases h
    exact takeWhile_append_begins _ (numberTail_begins _)
  · cases h
    exact List.takeWhile_prefix _

theorem markedNumber_fault {radix : Radix} {base : Nat} {p : Char → Bool}
    {mark text before blamed : List Char} {cause : Cause}
    (h : markedNumber radix base p mark text = .fault cause before blamed) :
    before ++ blamed <+: mark ++ text := by
  unfold markedNumber badNumber at h
  dsimp only at h
  split_ifs at h
  · cases h
    rw [List.nil_append, List.append_assoc, List.prefix_append_right_inj]
    exact takeWhile_append_begins _ (numberTail_begins _)
  · cases h
    rw [List.nil_append, List.prefix_append_right_inj]
    exact List.takeWhile_prefix _

theorem number_fault {text before blamed : List Char} {cause : Cause}
    (h : number text = .fault cause before blamed) : before ++ blamed <+: text := by
  unfold number at h
  split at h
  · split_ifs at h
    · exact markedNumber_fault h
    · exact markedNumber_fault h
    · exact decimalNumber_fault h
  · exact decimalNumber_fault h

theorem escape_invalid {text sequence : List Char} (h : escape text = .invalid sequence) :
    sequence <+: text := by
  unfold escape at h
  split at h
  · cases h
    exact List.nil_prefix
  · next cs =>
    dsimp only at h
    split_ifs at h
    cases h
    rw [List.prefix_cons_inj]
    exact (List.takeWhile_prefix _).trans (List.take_prefix 2 cs)
  · next cs =>
    dsimp only at h
    split at h
    · cases h
    · cases h
      rw [List.prefix_cons_inj, List.prefix_cons_inj]
      exact List.takeWhile_prefix _
  · next c cs _ _ =>
    split_ifs at h
    · cases h
      exact List.nil_prefix
    · split at h
      · cases h
      · cases h
        exact List.prefix_append [c] cs

/-- The part of an unreadable string literal that is read before the fault, and what the fault blames. -/
def Body.faulty : Body → List Char
  | .closed _ _ _ => []
  | .unclosed raw => raw
  | .badEscape before sequence => before ++ sequence

theorem Body.faulty_cons (c : Char) (raw : List Char) (b : Body) :
    (b.cons c raw).faulty <+: raw ++ b.faulty := by
  cases b with
  | closed value raws rest => exact List.nil_prefix
  | unclosed raws => exact List.prefix_refl _
  | badEscape before sequence =>
    simp only [Body.cons, faulty, List.append_assoc]
    exact List.prefix_refl _

theorem faulty_body_begins (text : List Char) : (body text).faulty <+: text := by
  fun_induction body text with
  | case1 => exact List.prefix_refl _
  | case2 => exact List.nil_prefix
  | case3 => exact List.nil_prefix
  | case4 c cs _ _ hc d raw rest he ih =>
    have htext : '\\' :: raw ++ rest = c :: cs := by
      rw [List.cons_append, (escape_char he).1, beq_iff_eq.1 hc]
    rw [← htext]
    exact (Body.faulty_cons d ('\\' :: raw) _).trans ((List.prefix_append_right_inj _).2 ih)
  | case5 c cs _ _ hc sequence he =>
    rw [beq_iff_eq.1 hc]
    exact (List.prefix_cons_inj _).2 (escape_invalid he)
  | case6 c cs _ _ _ ih =>
    exact (Body.faulty_cons c [c] _).trans ((List.prefix_cons_inj c).2 ih)

theorem string_fault {text before blamed : List Char} {cause : Cause}
    (h : string text = .fault cause before blamed) : before ++ blamed <+: '"' :: text := by
  have hbody := faulty_body_begins text
  unfold string at h
  split at h
  · cases h
  · next raw hraw =>
    cases h
    rw [hraw] at hbody
    exact (List.prefix_cons_inj _).2 hbody
  · next front sequence hraw =>
    cases h
    rw [hraw] at hbody
    exact (List.prefix_cons_inj _).2 hbody

theorem symbol_fault {c : Char} {cs before blamed : List Char} {cause : Cause}
    (h : symbol c cs = .fault cause before blamed) : before ++ blamed <+: c :: cs := by
  have hsingle (h : singleSymbol c cs = .fault cause before blamed) : before ++ blamed <+: c :: cs := by
    unfold singleSymbol at h
    split at h
    · cases h
    · cases h
      exact List.prefix_append [c] cs
  unfold symbol at h
  split at h
  · split at h
    · cases h
    · exact hsingle h
  · exact hsingle h

theorem slash_fault {cs before blamed : List Char} {cause : Cause}
    (h : slash cs = .fault cause before blamed) : before ++ blamed <+: '/' :: cs := by
  unfold slash at h
  split at h
  · cases h
  · split at h
    · cases h
    · cases h
      exact List.prefix_refl _
  · exact symbol_fault h

/-- A fault lies in the text, right after what was read before it. -/
theorem piece_fault {c : Char} {cs before blamed : List Char} {cause : Cause}
    (h : piece c cs = .fault cause before blamed) : before ++ blamed <+: c :: cs := by
  unfold piece at h
  split_ifs at h with _ hslash hquote
  · rw [beq_iff_eq.1 hslash]
    exact slash_fault h
  · rw [beq_iff_eq.1 hquote]
    exact string_fault h
  · exact number_fault h
  · cases h
  · exact symbol_fault h

end Token

/-! ## Tokens in their places -/

/-- The lexeme of a token is the part of the source text that its span names, and only the end of input
has an empty one. -/
structure Token.IsIn (source : List Char) (t : Token) : Prop where
  span : t.span.IsIn source
  lexeme_eq : t.lexeme.toList = t.span.slice source
  ne_empty : t.kind ≠ .eof → t.lexeme ≠ ""

namespace Lexical

open Scriptlet.Token

/-- Blanks and whole comments in front of `rest`. -/
inductive Skips : List Char → List Char → Prop
  | nil {rest : List Char} : Skips [] rest
  | cons {text more rest : List Char} : Trivia text (more ++ rest) → Skips more rest →
      Skips (text ++ more) rest

/-- Nothing but blanks and whole comments stands from one offset of a source text to another. -/
def Gap (source : List Char) (start stop : Nat) : Prop :=
  start ≤ stop ∧ Skips ((source.take stop).drop start) (source.drop stop)

/-- From an offset on, each token comes after the one before it, with only a gap between them. -/
def Tiles (source : List Char) : Nat → List Token → Prop
  | _, [] => True
  | start, t :: ts => Gap source start t.span.start.offset ∧ Tiles source t.span.stop.offset ts

theorem gap_self (before rest : List Char) :
    Gap (before ++ rest) before.length before.length := by
  refine ⟨Nat.le_refl _, ?_⟩
  rw [List.take_left, List.drop_length]
  exact .nil

/-- A gap goes on to the left over what is skipped there. -/
theorem Gap.extend {before text rest : List Char} {stop : Nat} (htrivia : Trivia text rest)
    (h : Gap (before ++ text ++ rest) (before ++ text).length stop) :
    Gap (before ++ text ++ rest) before.length stop := by
  obtain ⟨hle, hskips⟩ := h
  obtain ⟨k, rfl⟩ := Nat.exists_eq_add_of_le hle
  rw [List.take_length_add_append, List.drop_length_add_append, List.drop_left] at hskips
  refine ⟨?_, ?_⟩
  · rw [List.length_append]
    omega
  · rw [List.take_length_add_append, List.drop_length_add_append, List.append_assoc, List.drop_left]
    refine .cons ?_ hskips
    rwa [List.take_append_drop]

/-! ## Scanning -/

theorem Lexeme.ne_eof {kind : Kind} {lexeme rest : List Char} (h : Lexeme kind lexeme rest) :
    kind ≠ .eof := by
  cases h with
  | reserved hr =>
    rintro rfl
    simp [reservedWords] at hr
  | name | decimal | hexadecimal | binary | string | symbol =>
    intro heof
    cases heof

/-- The tokens of a source text from an offset on, up to its end or to the first fault. -/
structure Tiled (source : List Char) (start : Nat) (tokens : List Token) (fault : Option Fault) :
    Prop where
  isIn : ∀ t ∈ tokens, t.IsIn source
  tiles : Tiles source start tokens
  ended : fault = none → ∃ ts here, tokens = ts ++ [⟨.eof, "", ⟨here, here⟩⟩] ∧
    (∀ t ∈ ts, t.kind ≠ .eof) ∧ here.offset = source.length
  broken : ∀ f, fault = some f → f.span.IsIn source ∧ ∀ t ∈ tokens, t.kind ≠ .eof

theorem tiled_eof (source : List Char) :
    Tiled source source.length
      [⟨.eof, "", ⟨Location.first.after source, Location.first.after source⟩⟩] none := by
  have hoffset := Location.offset_after_first source
  have hlocation : (Location.first.after source).IsIn source := by
    have h := Location.isIn_after source []
    rwa [List.append_nil] at h
  have hspan : Span.IsIn source ⟨Location.first.after source, Location.first.after source⟩ :=
    ⟨hlocation, hlocation, Nat.le_refl _⟩
  have hgap : Gap source source.length source.length := by
    have h := gap_self source []
    rwa [List.append_nil] at h
  refine ⟨List.forall_mem_singleton.2 ⟨hspan, ?_, fun h => absurd rfl h⟩, ⟨?_, trivial⟩,
    fun _ => ⟨[], _, rfl, List.forall_mem_nil _, hoffset⟩, nofun⟩
  · simp [Span.slice]
  · rwa [hoffset]

theorem tiled_fault (before front blamed rest : List Char) (cause : Cause) (quoted : Option Nat) :
    Tiled (before ++ (front ++ blamed ++ rest)) before.length []
      (some ⟨cause, Span.covering (before ++ front) blamed, quoted⟩) := by
  refine ⟨List.forall_mem_nil _, trivial, nofun, ?_⟩
  rintro _ ⟨⟩
  have hspan := Span.isIn_covering (before ++ front) blamed rest
  simp only [List.append_assoc] at hspan ⊢
  exact ⟨hspan, List.forall_mem_nil _⟩

/-- What is skipped belongs to the gap before the next token. -/
theorem Tiled.skip {before text rest : List Char} {tokens : List Token} {fault : Option Fault}
    (htrivia : Trivia text rest)
    (h : Tiled (before ++ text ++ rest) (before ++ text).length tokens fault) :
    Tiled (before ++ text ++ rest) before.length tokens fault := by
  refine ⟨h.isIn, ?_, h.ended, h.broken⟩
  have htiles := h.tiles
  cases tokens with
  | nil => trivial
  | cons t ts => exact ⟨htiles.1.extend htrivia, htiles.2⟩

/-- A token is put in front of the tokens after it. -/
theorem Tiled.cons {before lexeme rest : List Char} {kind : Kind} {tokens : List Token}
    {fault : Option Fault} (hlexeme : Lexeme kind lexeme rest)
    (h : Tiled (before ++ lexeme ++ rest) (before ++ lexeme).length tokens fault) :
    Tiled (before ++ lexeme ++ rest) before.length
      (⟨kind, String.ofList lexeme, Span.covering before lexeme⟩ :: tokens) fault := by
  have hstop : (Span.covering before lexeme).stop.offset = (before ++ lexeme).length := by
    rw [Span.covering, ← Location.after_append, Location.offset_after_first]
  have hisIn : Token.IsIn (before ++ lexeme ++ rest)
      ⟨kind, String.ofList lexeme, Span.covering before lexeme⟩ := by
    refine ⟨Span.isIn_covering before lexeme rest, ?_, fun _ hempty => hlexeme.ne_nil ?_⟩
    · rw [Span.slice_covering, String.toList_ofList]
    · exact String.ofList_eq_empty_iff.1 hempty
  refine ⟨List.forall_mem_cons.2 ⟨hisIn, h.isIn⟩, ⟨?_, ?_⟩, fun hnone => ?_, fun f hf => ?_⟩
  · change Gap _ _ (Location.first.after before).offset
    rw [Location.offset_after_first, List.append_assoc]
    exact gap_self before (lexeme ++ rest)
  · rw [hstop]
    exact h.tiles
  · obtain ⟨ts, here, rfl, hts, hend⟩ := h.ended hnone
    exact ⟨_ :: ts, here, rfl, List.forall_mem_cons.2 ⟨hlexeme.ne_eof, hts⟩, hend⟩
  · obtain ⟨hspan, htokens⟩ := h.broken f hf
    exact ⟨hspan, List.forall_mem_cons.2 ⟨hlexeme.ne_eof, htokens⟩⟩

/-- Scanning from the end of any beginning of a source text. -/
theorem scan_tiled (before text : List Char) :
    Tiled (before ++ text) before.length (scan (Location.first.after before) text).1
      (scan (Location.first.after before) text).2 := by
  generalize hhere : Location.first.after before = here
  fun_induction scan here text generalizing before with
  | case1 here =>
    subst hhere
    rw [List.append_nil]
    exact tiled_eof before
  | case2 here c cs text rest hpiece ih =>
    obtain ⟨htrivia, htext⟩ := piece_trivia_iff.1 hpiece
    have hrest := ih (before ++ text) (by rw [Location.after_append, hhere])
    rw [← htext, ← List.append_assoc]
    exact hrest.skip htrivia
  | case3 here c cs kind lexeme rest hpiece stop tokens fault hscan ih =>
    obtain ⟨hlongest, htext⟩ := piece_token_iff.1 hpiece
    have hrest := ih (before ++ lexeme) (by rw [Location.after_append, hhere])
    rw [hscan] at hrest
    subst hhere
    rw [← htext, ← List.append_assoc]
    exact hrest.cons hlongest.1
  | case4 here c cs cause front blamed hpiece start =>
    obtain ⟨rest, htext⟩ := piece_fault hpiece
    have hfault := tiled_fault before front blamed rest cause (some start.line)
    rw [htext, Span.covering, Location.after_append, hhere] at hfault
    exact hfault

/-- Each token of a source text, up to the end or to the first failure, stands where its span says, with
the part of the text that its span names as its lexeme; between the tokens there are blanks and comments
only. A text that is read to its end has the end of input as its last token and nowhere else. Lines and
columns of all locations are those of the text, also where it fails. -/
theorem stream_tiled (source : String) :
    (∀ t ∈ (Token.stream source).1, t.IsIn source.toList) ∧
    Tiles source.toList 0 (Token.stream source).1 ∧
    ((Token.stream source).2 = none →
      ∃ ts here, (Token.stream source).1 = ts ++ [⟨.eof, "", ⟨here, here⟩⟩] ∧
        (∀ t ∈ ts, t.kind ≠ .eof) ∧ here.offset = source.length) ∧
    ∀ f, (Token.stream source).2 = some f →
      (∃ span, f.span = some span ∧ span.IsIn source.toList) ∧
        ∀ t ∈ (Token.stream source).1, t.kind ≠ .eof := by
  have htiled : Tiled source.toList 0 (scan .first source.toList).1 (scan .first source.toList).2 :=
    scan_tiled [] source.toList
  refine ⟨htiled.isIn, htiled.tiles, fun hnone => ?_, fun f hf => ?_⟩
  · exact htiled.ended (Option.map_eq_none_iff.1 hnone)
  · obtain ⟨fault, hfault, rfl⟩ := Option.map_eq_some_iff.1 hf
    obtain ⟨hspan, htokens⟩ := htiled.broken fault hfault
    exact ⟨⟨fault.span, rfl, hspan⟩, htokens⟩

/-- A text that fails in its second line, after a comment of two lines, and one that ends with a comment. -/
theorem stream_tiled_brokenEscape :
    let source := "a /*\n*/ 1 \"\\z"
    let one : Token := ⟨.int 1, "1", ⟨⟨2, 4, 8⟩, ⟨2, 5, 9⟩⟩⟩
    let f : Failure := ⟨.invalidEscape "z", some ⟨⟨2, 8, 12⟩, ⟨2, 9, 13⟩⟩, some "*/ 1 \"\\z"⟩
    one ∈ (Token.stream source).1 ∧ one.IsIn source.toList ∧ one.kind ≠ .eof ∧
    (Token.stream source).2 = some f ∧ (∃ span, f.span = some span ∧ span.IsIn source.toList) ∧
    (Token.stream "b\n//").2 = none ∧
    ∃ ts here, (Token.stream "b\n//").1 = ts ++ [⟨.eof, "", ⟨here, here⟩⟩] ∧
      (∀ t ∈ ts, t.kind ≠ .eof) ∧ here.offset = 4 := by
  intro source one f
  obtain ⟨hisIn, -, -, hbroken⟩ := stream_tiled source
  obtain ⟨-, -, hended, -⟩ := stream_tiled "b\n//"
  have hone : one ∈ (Token.stream source).1 := by decide +kernel
  have hfailure : (Token.stream source).2 = some f := by decide +kernel
  have hnone : (Token.stream "b\n//").2 = none := by decide +kernel
  obtain ⟨hspan, heof⟩ := hbroken f hfailure
  exact ⟨hone, hisIn one hone, heof one hone, hfailure, hspan, hnone, hended hnone⟩

end Lexical

end Scriptlet
