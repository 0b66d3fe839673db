import Scriptlet.Proofs.Positions

/-!
# The lines that failures quote

Two notions of a line meet where a failure quotes its source line. Locations count line feeds only, while
the quoted line is looked up among the pieces of the text, which end at other characters too. A *stray*
break is one that ends a piece and no line. As long as there is none, the quoted line is the line of the
failure; each one before that line moves the quotation to an earlier part of the text.

* `Text.strays`: how many stray breaks there are in a text.
* `Text.IsLine before line rest`: `line` is a whole line between `before` and `rest`.
* `Text.EndsLine.length_pieces`: a text of whole lines has as many pieces as line feeds and stray breaks.
* `Token.quoted_isTextOf_iff`: when the failure of a source text quotes its line.
-/

namespace Scriptlet

namespace Text

/-! ## Stray breaks -/

/-- Does `c` end a piece in front of `rest`, but neither a line nor what a line feed ends? -/
def isStray (c : Char) (rest : List Char) : Bool :=
  isBreak c && c != '\n' && !(c == '\r' && rest.head? == some '\n')

/-- The number of stray breaks of a text. -/
def strays : List Char → Nat
  | [] => 0
  | c :: cs => (if isStray c cs then 1 else 0) + strays cs

/-- A text that has come to the end of a line. -/
def EndsLine (text : List Char) : Prop := text = [] ∨ ∃ front, text = front ++ ['\n']

/-! ## Pieces -/

/-- A carriage return in front of a line feed adds nothing. -/
theorem pieces_return {c : Char} {cs : List Char} (h : c = '\r' ∧ cs.head? = some '\n') :
    pieces (c :: cs) = pieces cs := by
  obtain ⟨rfl, hhead⟩ := h
  obtain ⟨more, rfl⟩ := List.head?_eq_some_iff.1 hhead
  rfl

theorem pieces_break {c : Char} {cs : List Char} (h : ¬(c = '\r' ∧ cs.head? = some '\n'))
    (hc : isBreak c = true) : pieces (c :: cs) = [] :: pieces cs := by
  rw [pieces.eq_def]
  split
  · next heq => cases heq
  · next heq =>
    cases heq
    exact absurd ⟨rfl, rfl⟩ h
  · next heq =>
    cases heq
    rw [if_pos hc]

theorem pieces_char {c : Char} {cs line : List Char} {more : List (List Char)}
    (hc : isBreak c = false) (h : pieces cs = line :: more) :
    pieces (c :: cs) = (c :: line) :: more := by
  rw [pieces.eq_def]
  split
  · next heq => cases heq
  · next heq =>
    cases heq
    cases hc
  · next heq =>
    cases heq
    rw [if_neg (by simp [hc]), h]

theorem pieces_single {c : Char} (hc : isBreak c = false) : pieces [c] = [[c]] := by
  rw [pieces.eq_def]
  split
  · next heq => cases heq
  · next heq => cases heq
  · next heq =>
    cases heq
    rw [if_neg (by simp [hc])]
    rfl

theorem pieces_ne_nil {cs : List Char} (h : cs ≠ []) : pieces cs ≠ [] := by
  fun_cases pieces cs with
  | case1 => exact absurd rfl h
  | case2 | case3 | case4 | case5 => simp_all

theorem isStray_eq_false {c : Char} {cs : List Char}
    (h : (c = '\r' ∧ cs.head? = some '\n') ∨ isBreak c = false ∨ c = '\n') :
    isStray c cs = false := by
  unfold isStray
  rcases h with ⟨rfl, hhead⟩ | hc | rfl
  · simp [hhead]
  · simp [hc]
  · simp

theorem isStray_eq_true {c : Char} {cs : List Char} (h : ¬(c = '\r' ∧ cs.head? = some '\n'))
    (hc : isBreak c = true) (hne : c ≠ '\n') : isStray c cs = true := by
  simp only [isStray, hc, Bool.true_and, Bool.and_eq_true, bne_iff_ne, ne_eq, hne, not_false_eq_true,
    true_and, Bool.not_eq_true', Bool.and_eq_false_iff, beq_eq_false_iff_ne]
  exact not_and_or.1 h

theorem exists_pieces_lineFeed (front : List Char) :
    ∃ line more, pieces (front ++ ['\n']) = line :: more :=
  List.exists_cons_of_ne_nil
    (pieces_ne_nil (List.append_ne_nil_of_right_ne_nil front (List.cons_ne_nil '\n' [])))

/-- What follows a line feed makes no difference to what stands before it. -/
theorem head?_append_lineFeed (front text : List Char) :
    (front ++ '\n' :: text).head? = (front ++ ['\n']).head? := by
  cases front <;> rfl

/-- The pieces of a text can be cut after a line feed. -/
theorem pieces_append_lineFeed (front text : List Char) :
    pieces (front ++ '\n' :: text) = pieces (front ++ ['\n']) ++ pieces text := by
  induction front with
  | nil => rfl
  | cons c front ih =>
    have hhead := head?_append_lineFeed front text
    by_cases hreturn : c = '\r' ∧ (front ++ ['\n']).head? = some '\n'
    · rw [List.cons_append, List.cons_append, pieces_return hreturn, pieces_return (hhead ▸ hreturn), ih]
    · cases hc : isBreak c with
      | true =>
        rw [List.cons_append, List.cons_append, pieces_break hreturn hc,
          pieces_break (hhead ▸ hreturn) hc, ih, List.cons_append]
      | false =>
        obtain ⟨line, more, hpieces⟩ := exists_pieces_lineFeed front
        rw [hpieces, List.cons_append] at ih
        rw [List.cons_append, List.cons_append, pieces_char hc hpieces, pieces_char hc ih,
          List.cons_append]

theorem strays_append_lineFeed (front text : List Char) :
    strays (front ++ '\n' :: text) = strays (front ++ ['\n']) + strays text := by
  induction front with
  | nil => simp [strays, isStray]
  | cons c front ih =>
    have hstray : isStray c (front ++ '\n' :: text) = isStray c (front ++ ['\n']) := by
      rw [isStray, head?_append_lineFeed, isStray]
    rw [List.cons_append, List.cons_append, strays, strays, ih, hstray, Nat.add_assoc]

theorem length_pieces_lineFeed (front : List Char) :
    (pieces (front ++ ['\n'])).length =
      (front ++ ['\n']).count '\n' + strays (front ++ ['\n']) := by
  induction front with
  | nil => rfl
  | cons c front ih =>
    rw [List.cons_append, List.count_cons, strays]
    by_cases hreturn : c = '\r' ∧ (front ++ ['\n']).head? = some '\n'
    · rw [pieces_return hreturn, ih, isStray_eq_false (.inl hreturn), hreturn.1]
      simp
    · cases hc : isBreak c with
      | true =>
        rw [pieces_break hreturn hc, List.length_cons, ih]
        by_cases hne : c = '\n'
        · rw [isStray_eq_false (.inr (.inr hne)), hne]
          simp only [beq_self_eq_true, if_true, Bool.false_eq_true, if_false]
          omega
        · rw [isStray_eq_true hreturn hc hne]
          simp only [beq_eq_false_iff_ne.2 hne, if_true, Bool.false_eq_true, if_false]
          omega
      | false =>
        have hne : c ≠ '\n' := by
          rintro rfl
          cases hc
        obtain ⟨line, more, hpieces⟩ := exists_pieces_lineFeed front
        rw [hpieces, List.length_cons] at ih
        rw [pieces_char hc hpieces, List.length_cons, isStray_eq_false (.inr (.inl hc)), ih]
        simp [hne]

namespace EndsLine

variable {before : List Char}

theorem ne_concat (h : EndsLine before) {c : Char} (hc : c ≠ '\n') (front : List Char) :
    before ≠ front ++ [c] := by
  obtain rfl | ⟨more, rfl⟩ := h
  · simp
  · intro heq
    have hlast := (List.append_inj' heq rfl).2
    exact hc (List.cons.inj hlast).1.symm

theorem pieces_append (h : EndsLine before) (text : List Char) :
    pieces (before ++ text) = pieces before ++ pieces text := by
  obtain rfl | ⟨front, rfl⟩ := h
  · rfl
  · rw [List.append_assoc]
    exact pieces_append_lineFeed front text

theorem strays_append (h : EndsLine before) (text : List Char) :
    strays (before ++ text) = strays before + strays text := by
  obtain rfl | ⟨front, rfl⟩ := h
  · exact (Nat.zero_add _).symm
  · rw [List.append_assoc]
    exact strays_append_lineFeed front text

/-- Whole lines have one piece for each line feed and one more for each stray break. -/
theorem length_pieces (h : EndsLine before) :
    (pieces before).length = before.count '\n' + strays before := by
  obtain rfl | ⟨front, rfl⟩ := h
  · rfl
  · exact length_pieces_lineFeed front

end EndsLine

/-! ## Lines -/

/-- A whole line, without its line feed, between what comes before it and what comes after it. -/
structure IsLine (before line rest : List Char) : Prop where
  opened : EndsLine before
  whole : '\n' ∉ line
  closed : rest = [] ∨ ∃ more, rest = '\n' :: more

/-- The part of a line before its first break. -/
def shown (line : List Char) : List Char := line.takeWhile fun c => !isBreak c

theorem shown_cons_break {c : Char} (hc : isBreak c = true) (cs : List Char) : shown (c :: cs) = [] :=
  List.takeWhile_cons_of_neg (by simp [hc])

theorem shown_cons_char {c : Char} (hc : isBreak c = false) (cs : List Char) :
    shown (c :: cs) = c :: shown cs :=
  List.takeWhile_cons_of_pos (by simp [hc])

theorem exists_endsLine (text : List Char) :
    ∃ before front, text = before ++ front ∧ EndsLine before ∧ '\n' ∉ front := by
  induction text using List.reverseRecOn with
  | nil => exact ⟨[], [], rfl, .inl rfl, List.not_mem_nil⟩
  | append_singleton text c ih =>
    by_cases hc : c = '\n'
    · exact ⟨text ++ ['\n'], [], by simp [hc], .inr ⟨text, rfl⟩, List.not_mem_nil⟩
    · obtain ⟨before, front, rfl, hbefore, hfront⟩ := ih
      refine ⟨before, front ++ [c], List.append_assoc .., hbefore, ?_⟩
      simp [hfront, Ne.symm hc]

theorem exists_closed (text : List Char) :
    ∃ back rest, text = back ++ rest ∧ '\n' ∉ back ∧ (rest = [] ∨ ∃ more, rest = '\n' :: more) := by
  induction text with
  | nil => exact ⟨[], [], rfl, List.not_mem_nil, .inl rfl⟩
  | cons c text ih =>
    by_cases hc : c = '\n'
    · exact ⟨[], c :: text, rfl, List.not_mem_nil, .inr ⟨text, by rw [hc]⟩⟩
    · obtain ⟨back, rest, rfl, hback, hrest⟩ := ih
      refine ⟨c :: back, rest, rfl, ?_, hrest⟩
      simp [hback, Ne.symm hc]

/-- Every place of a text stands in a line. -/
theorem exists_isLine (left right : List Char) :
    ∃ before front back rest, left = before ++ front ∧ right = back ++ rest ∧ '\n' ∉ front ∧
      IsLine before (front ++ back) rest := by
  obtain ⟨before, front, hleft, hbefore, hfront⟩ := exists_endsLine left
  obtain ⟨back, rest, hright, hback, hrest⟩ := exists_closed right
  refine ⟨before, front, back, rest, hleft, hright, hfront, hbefore, ?_, hrest⟩
  simp [hfront, hback]

theorem pieces_eq_shown_cons {line rest : List Char} (hrest : rest = [] ∨ ∃ more, rest = '\n' :: more)
    (hne : line ++ rest ≠ []) : ∃ more, pieces (line ++ rest) = shown line :: more := by
  induction line with
  | nil =>
    obtain ⟨more, rfl⟩ := hrest.resolve_left hne
    exact ⟨pieces more, pieces_break (by simp) rfl⟩
  | cons c line ih =>
    by_cases hreturn : c = '\r' ∧ (line ++ rest).head? = some '\n'
    · obtain ⟨more, hmore⟩ := List.head?_eq_some_iff.1 hreturn.2
      refine ⟨pieces more, ?_⟩
      rw [List.cons_append, pieces_return hreturn, hmore, shown_cons_break (by rw [hreturn.1]; rfl)]
      exact pieces_break (by simp) rfl
    · cases hc : isBreak c with
      | true =>
        exact ⟨pieces (line ++ rest), by rw [List.cons_append, pieces_break hreturn hc, shown_cons_break hc]⟩
      | false =>
        rw [shown_cons_char hc]
        by_cases hempty : line ++ rest = []
        · obtain ⟨rfl, rfl⟩ := List.append_eq_nil_iff.1 hempty
          exact ⟨[], pieces_single hc⟩
        · obtain ⟨more, hmore⟩ := ih hempty
          exact ⟨more, pieces_char hc hmore⟩

/-- The text of a line that `rest` comes after. A carriage return in front of the line feed may be left out. -/
def IsTextOf (text line rest : List Char) : Prop :=
  line = text ∨ line = text ++ ['\r'] ∧ rest ≠ []

theorem IsTextOf.begins {text line rest : List Char} (h : IsTextOf text line rest) : text <+: line := by
  obtain rfl | ⟨rfl, -⟩ := h
  · exact List.prefix_refl _
  · exact List.prefix_append _ _

theorem strays_shown_append (line text : List Char) : strays (shown line ++ text) = strays text := by
  induction line with
  | nil => rfl
  | cons c line ih =>
    cases hc : isBreak c with
    | true =>
      rw [shown_cons_break hc, List.nil_append]
    | false =>
      rw [shown_cons_char hc, List.cons_append, strays, isStray_eq_false (.inr (.inl hc)), ih]
      exact Nat.zero_add _

/-- A stray break is what ends the shown part of a line before the line ends. -/
theorem isTextOf_shown_of_strays {line rest : List Char} (hwhole : '\n' ∉ line)
    (hstrays : strays (line ++ rest.take 1) = 0) : IsTextOf (shown line) line rest := by
  induction line with
  | nil => exact .inl rfl
  | cons c line ih =>
    obtain ⟨hne, hline⟩ := not_or.1 (mt List.mem_cons.2 hwhole)
    rw [List.cons_append, strays, Nat.add_eq_zero_iff] at hstrays
    obtain ⟨hstray, hstrays⟩ := hstrays
    cases hc : isBreak c with
    | true =>
      have hreturn : c = '\r' ∧ (line ++ rest.take 1).head? = some '\n' := by
        by_contra hreturn
        rw [isStray_eq_true hreturn hc (Ne.symm hne)] at hstray
        cases hstray
      obtain ⟨rfl, hhead⟩ := hreturn
      cases line with
      | nil =>
        refine .inr ⟨rfl, ?_⟩
        rintro rfl
        cases hhead
      | cons d line =>
        cases hhead
        exact absurd List.mem_cons_self hline
    | false =>
      rw [shown_cons_char hc]
      rcases ih hline hstrays with heq | ⟨heq, hrest⟩
      · exact .inl (congrArg (c :: ·) heq)
      · exact .inr ⟨congrArg (c :: ·) heq, hrest⟩

namespace IsLine

variable {before line rest : List Char}

theorem isTextOf_shown_iff (h : IsLine before line rest) :
    IsTextOf (shown line) line rest ↔ strays (line ++ rest.take 1) = 0 := by
  constructor
  · rintro (hline | ⟨hline, hrest⟩)
    · rw [hline, strays_shown_append]
      obtain hrest | ⟨more, hrest⟩ := h.closed
      · rw [hrest]
        rfl
      · rw [hrest]
        rfl
    · obtain ⟨more, hrest⟩ := h.closed.resolve_left hrest
      rw [hline, hrest, List.append_assoc, strays_shown_append]
      rfl
  · exact isTextOf_shown_of_strays h.whole

/-- The piece that has the number of a line is the beginning of this line, if no stray break comes before
it. -/
theorem getElem?_pieces (h : IsLine before line rest) (hne : line ++ rest ≠ [])
    (hstrays : strays before = 0) :
    (pieces (before ++ line ++ rest))[before.count '\n']? = some (shown line) := by
  obtain ⟨more, hmore⟩ := pieces_eq_shown_cons h.closed hne
  have hlength := h.opened.length_pieces
  rw [hstrays, Nat.add_zero] at hlength
  rw [List.append_assoc, h.opened.pieces_append, ← hlength, hmore, List.getElem?_append_right (Nat.le_refl _)]
  simp

/-- After a stray break it is an earlier piece. -/
theorem getElem?_pieces_of_stray (h : IsLine before line rest) (hstrays : 0 < strays before) :
    ∃ piece, (pieces before)[before.count '\n']? = some piece ∧
      (pieces (before ++ line ++ rest))[before.count '\n']? = some piece := by
  have hlength := h.opened.length_pieces
  have hlt : before.count '\n' < (pieces before).length := by omega
  refine ⟨(pieces before)[before.count '\n'], List.getElem?_eq_getElem hlt, ?_⟩
  rw [List.append_assoc, h.opened.pieces_append, List.getElem?_append_left hlt,
    List.getElem?_eq_getElem hlt]

end IsLine

end Text

/-! ## Where faults point -/

namespace Token

theorem body_badEscape {text before sequence : List Char} (h : body text = .badEscape before sequence) :
    ∃ front, before = front ++ ['\\'] := by
  fun_induction body text generalizing before with
  | case1 | case2 | case3 => cases h
  | case4 c cs _ _ _ d raw rest _ ih =>
    cases hbody : body rest with
    | closed | unclosed => rw [hbody] at h; cases h
    | badEscape inner tail =>
      rw [hbody] at h
      cases h
      obtain ⟨front, rfl⟩ := ih hbody
      exact ⟨'\\' :: raw ++ front, (List.append_assoc ..).symm⟩
  | case5 =>
    cases h
    exact ⟨[], rfl⟩
  | case6 c cs _ _ _ ih =>
    cases hbody : body cs with
    | closed | unclosed => rw [hbody] at h; cases h
    | badEscape inner tail =>
      rw [hbody] at h
      cases h
      obtain ⟨front, rfl⟩ := ih hbody
      exact ⟨c :: front, rfl⟩

theorem number_fault_front {text before blamed : List Char} {cause : Cause}
    (h : number text = .fault cause before blamed) : before = [] := by
  have hdecimal (h : decimalNumber text = .fault cause before blamed) : before = [] := by
    unfold decimalNumber badNumber at h
    dsimp only at h
    split_ifs at h <;> cases h <;> rfl
  have hmarked {radix : Radix} {base : Nat} {p : Char → Bool} {mark digits : List Char}
      (h : markedNumber radix base p mark digits = .fault cause before blamed) : before = [] := by
    unfold markedNumber badNumber at h
    dsimp only at h
    split_ifs at h <;> cases h <;> rfl
  unfold number at h
  split at h
  · split_ifs at h
    · exact hmarked h
    · exact hmarked h
    · exact hdecimal h
  · exact hdecimal h

theorem symbol_fault_front {c : Char} {cs before blamed : List Char} {cause : Cause}
    (h : symbol c cs = .fault cause before blamed) : before = [] := by
  unfold symbol singleSymbol at h
  repeat' split at h
  all_goals cases h
  all_goals rfl

/-- A fault points to the beginning of what cannot be read, or to what follows a backslash. -/
theorem piece_fault_front {c : Char} {cs before blamed : List Char} {cause : Cause}
    (h : piece c cs = .fault cause before blamed) : before = [] ∨ ∃ front, before = front ++ ['\\'] := by
  unfold piece at h
  split_ifs at h
  · unfold slash at h
    repeat' split at h
    · cases h
    · cases h
    · cases h
      exact .inl rfl
    · exact .inl (symbol_fault_front h)
  · unfold string at h
    split at h
    · cases h
    · cases h
      exact .inl rfl
    · next inner sequence hbody =>
      cases h
      obtain ⟨front, rfl⟩ := body_badEscape hbody
      exact .inr ⟨'"' :: front, rfl⟩
  · exact .inl (number_fault_front h)
  · cases h
  · exact .inl (symbol_fault_front h)

/-- A fault of a text that starts at `here`: it points to a place of the text and quotes the line of this
place. If nothing is left of the text there, then a backslash stands right before it. -/
def PointsInto (here : Location) (text : List Char) (fault : Fault) : Prop :=
  ∃ left right, text = left ++ right ∧ fault.span.start = here.after left ∧
    fault.quoted = some fault.span.start.line ∧ (right = [] → ∃ front, left = front ++ ['\\'])

theorem PointsInto.append {here : Location} {text rest : List Char} {fault : Fault}
    (h : PointsInto (here.after text) rest fault) : PointsInto here (text ++ rest) fault := by
  obtain ⟨left, right, rfl, hstart, hquoted, hend⟩ := h
  refine ⟨text ++ left, right, (List.append_assoc ..).symm, ?_, hquoted, fun hright => ?_⟩
  · rw [hstart, Location.after_append]
  · obtain ⟨front, rfl⟩ := hend hright
    exact ⟨text ++ front, (List.append_assoc ..).symm⟩

theorem scan_pointsInto {here : Location} {text : List Char} {fault : Fault}
    (h : (scan here text).2 = some fault) : PointsInto here text fault := by
  fun_induction scan here text with
  | case1 here => cases h
  | case2 here c cs text rest hpiece ih =>
    rw [← (Lexical.piece_trivia_iff.1 hpiece).2]
    exact (ih h).append
  | case3 here c cs kind lexeme rest hpiece stop tokens fault' hscan ih =>
    rw [← (Lexical.piece_token_iff.1 hpiece).2]
    rw [hscan] at ih
    exact (ih h).append
  | case4 here c cs cause front blamed hpiece start =>
    cases h
    obtain ⟨rest, htext⟩ := piece_fault hpiece
    refine ⟨front, blamed ++ rest, ?_, rfl, rfl, fun hright => ?_⟩
    · rw [← htext, List.append_assoc]
    · refine (piece_fault_front hpiece).resolve_left ?_
      rintro rfl
      rw [List.nil_append, hright] at htext
      cases htext

end Token

/-! ## Quotations -/

open Scriptlet.Text

namespace Location

/-- The place stands in the line between `before` and `rest`, and has its number and its column there. -/
structure IsOn (l : Location) (before line rest : List Char) : Prop where
  isLine : IsLine before line rest
  line_eq : l.line = before.count '\n' + 1
  column_pos : 1 ≤ l.column
  column_eq : before.length + l.column = l.offset + 1
  offset_le : l.offset ≤ (before ++ line).length

theorem lineStart_append {before front : List Char} (hbefore : EndsLine before) (hfront : '\n' ∉ front) :
    lineStart (before ++ front) = before.length := by
  induction front using List.reverseRecOn with
  | nil =>
    rw [List.append_nil]
    obtain rfl | ⟨more, rfl⟩ := hbefore
    · rfl
    · simp [lineStart_concat]
  | append_singleton front c ih =>
    have hc : c ≠ '\n' := by
      rintro rfl
      simp at hfront
    rw [← List.append_assoc, lineStart_concat, if_neg hc]
    exact ih fun hmem => hfront (List.mem_append_left _ hmem)

theorem isOn_after {before front back rest : List Char} (h : IsLine before (front ++ back) rest)
    (hfront : '\n' ∉ front) : (first.after (before ++ front)).IsOn before (front ++ back) rest := by
  have hcolumn := column_after_first (before ++ front)
  rw [lineStart_append h.opened hfront, List.length_append] at hcolumn
  refine ⟨h, ?_, by omega, ?_, ?_⟩
  · rw [line_after, List.count_append, List.count_eq_zero_of_not_mem hfront, Nat.add_zero, Nat.add_comm]
    rfl
  · rw [offset_after_first, List.length_append]
    omega
  · rw [offset_after_first]
    simp only [List.length_append]
    omega

/-- A column of a beginning of a line has the character of the text at its offset. -/
theorem IsOn.getElem?_offset {l : Location} {before line rest text : List Char}
    (h : l.IsOn before line rest) (htext : text <+: line) {c : Char}
    (hc : text[l.column - 1]? = some c) :
    (before ++ line ++ rest)[l.offset]? = some c := by
  have hcolumn := h.column_eq
  have hpos := h.column_pos
  have hoffset : l.offset = before.length + (l.column - 1) := by omega
  obtain ⟨tail, htail⟩ := htext
  have hlt : l.column - 1 < text.length := (List.getElem?_eq_some_iff.1 hc).1
  rw [hoffset, List.append_assoc, List.getElem?_append_right (Nat.le_add_right _ _),
    Nat.add_sub_cancel_left, ← htail, List.append_assoc, List.getElem?_append_left hlt, hc]

end Location

/-- A failure in a line of a source text quotes this line up to its first break. But if stray breaks come
before the line, it quotes an earlier piece. -/
structure Failure.Quotes (f : Failure) (source : List Char) (span : Span)
    (before line rest quoted : List Char) : Prop where
  span_eq : f.span = some span
  sourceLine_eq : f.sourceLine = some (String.ofList quoted)
  source_eq : source = before ++ line ++ rest
  isOn : span.start.IsOn before line rest
  ofLine : strays before = 0 → quoted = shown line
  earlier : 0 < strays before → (pieces before)[before.count '\n']? = some quoted

theorem Token.exists_fault_of_ofSource {source : String} {f : Failure}
    (h : Token.ofSource source = .error f) :
    ∃ fault, (scan .first source.toList).2 = some fault ∧ f = fault.quote (Text.lines source) := by
  unfold Token.ofSource stream at h
  rcases hscan : scan .first source.toList with ⟨tokens, fault⟩
  rw [hscan] at h
  cases fault with
  | none => cases h
  | some fault =>
    cases h
    exact ⟨fault, rfl, rfl⟩

/-- The line that is quoted is the piece with its number. -/
theorem Fault.sourceLine_quote {fault : Fault} {n : Nat} (h : fault.quoted = some (n + 1))
    (source : String) :
    (fault.quote (Text.lines source)).sourceLine = (pieces source.toList)[n]?.map String.ofList := by
  show fault.quoted.bind (lineAt? (Text.lines source)) = _
  rw [h]
  exact List.getElem?_map

/-- A failure of the scanner quotes a piece of the source text. -/
theorem Token.exists_quotes_of_ofSource {source : String} {f : Failure}
    (h : Token.ofSource source = .error f) :
    ∃ span before line rest quoted, f.Quotes source.toList span before line rest quoted := by
  obtain ⟨fault, hscan, rfl⟩ := exists_fault_of_ofSource h
  obtain ⟨left, right, hsource, hstart, hquoted, hend⟩ := scan_pointsInto hscan
  obtain ⟨before, front, back, rest, rfl, rfl, hfront, hline⟩ := exists_isLine left right
  have hon : fault.span.start.IsOn before (front ++ back) rest := by
    rw [hstart]
    exact Location.isOn_after hline hfront
  have hsource : source.toList = before ++ (front ++ back) ++ rest := by
    simp only [hsource, List.append_assoc]
  rw [hon.line_eq] at hquoted
  -- a failure at the end of the text has its backslash in the line
  have hne : front ++ back ++ rest ≠ [] := by
    intro hnil
    obtain ⟨rfl, rfl, rfl⟩ : front = [] ∧ back = [] ∧ rest = [] := by simpa using hnil
    obtain ⟨more, hmore⟩ := hend rfl
    rw [List.append_nil] at hmore
    exact hline.opened.ne_concat (by decide) more hmore
  by_cases hstrays : strays before = 0
  · refine ⟨fault.span, before, front ++ back, rest, shown (front ++ back), rfl, ?_, hsource, hon,
      fun _ => rfl, fun hpos => absurd hstrays hpos.ne'⟩
    rw [Fault.sourceLine_quote hquoted, hsource, hline.getElem?_pieces hne hstrays, Option.map_some]
  · obtain ⟨piece, hpiece, hall⟩ := hline.getElem?_pieces_of_stray (Nat.pos_of_ne_zero hstrays)
    refine ⟨fault.span, before, front ++ back, rest, piece, rfl, ?_, hsource, hon,
      fun hzero => absurd hzero hstrays, fun _ => hpiece⟩
    rw [Fault.sourceLine_quote hquoted, hsource, hall, Option.map_some]

/-- What a failure of the scanner quotes is the text of its line if and only if there are no stray breaks up
to the end of this line, or else an earlier piece happens to have the same text. If it is, or if there
are no stray breaks before the line, then the column of the failure has the character of the source text
that the failure points to. -/
theorem Token.quoted_isTextOf_iff {source : String} {f : Failure} (h : Token.ofSource source = .error f) :
    ∃ span before line rest quoted, f.Quotes source.toList span before line rest quoted ∧
      (IsTextOf quoted line rest ↔ strays (before ++ line ++ rest.take 1) = 0 ∨
        0 < strays before ∧
          ∃ piece, (pieces before)[before.count '\n']? = some piece ∧ IsTextOf piece line rest) ∧
      (IsTextOf quoted line rest ∨ strays before = 0 →
        ∀ c, quoted[span.start.column - 1]? = some c → source.toList[span.start.offset]? = some c) := by
  obtain ⟨span, before, line, rest, quoted, hquotes⟩ := exists_quotes_of_ofSource h
  have hline := hquotes.isOn.isLine
  have hadd : strays (before ++ line ++ rest.take 1) = strays before + strays (line ++ rest.take 1) := by
    rw [List.append_assoc, hline.opened.strays_append]
  refine ⟨span, before, line, rest, quoted, hquotes, ?_, fun hcase c hc => ?_⟩
  · by_cases hstrays : strays before = 0
    · rw [hquotes.ofLine hstrays, hline.isTextOf_shown_iff, hadd, hstrays]
      simp
    · have hpos := Nat.pos_of_ne_zero hstrays
      have hpiece := hquotes.earlier hpos
      constructor
      · intro htext
        exact .inr ⟨hpos, quoted, hpiece, htext⟩
      · rintro (hzero | ⟨-, piece, hsame, htext⟩)
        · omega
        · rw [hpiece] at hsame
          cases hsame
          exact htext
  · have hbegins : quoted <+: line := by
      rcases hcase with htext | hstrays
      · exact htext.begins
      · rw [hquotes.ofLine hstrays]
        exact List.takeWhile_prefix _
    rw [hquotes.source_eq]
    exact hquotes.isOn.getElem?_offset hbegins hc

/-- A failure in the second line of a text, whose lines end with a carriage return and a line feed: the
carriage return is not quoted. -/
theorem Token.quoted_isTextOf_iff_returns :
    let source := "a\r\nb $\r\n"
    let f : Failure := ⟨.unexpectedCharacter '$', some ⟨⟨2, 3, 5⟩, ⟨2, 4, 6⟩⟩, some "b $"⟩
    Token.ofSource source = .error f ∧
    ∃ span before line rest quoted, f.Quotes source.toList span before line rest quoted ∧
      (IsTextOf quoted line rest ↔ strays (before ++ line ++ rest.take 1) = 0 ∨
        0 < strays before ∧
          ∃ piece, (pieces before)[before.count '\n']? = some piece ∧ IsTextOf piece line rest) := by
  intro source f
  have hsource : Token.ofSource source = .error f := by decide +kernel
  obtain ⟨span, before, line, rest, quoted, hquotes, hiff, -⟩ := Token.quoted_isTextOf_iff hsource
  exact ⟨hsource, span, before, line, rest, quoted, hquotes, hiff⟩

/-- After a vertical tab in a comment, the failure of the line `@` quotes the second piece of the comment. -/
theorem Token.ofSource_quotes_comment :
    let source := "// a\x0bb\n@"
    let f : Failure := ⟨.unexpectedCharacter '@', some ⟨⟨2, 1, 7⟩, ⟨2, 2, 8⟩⟩, some "b"⟩
    Token.ofSource source = .error f ∧ source.toList = "// a\x0bb\n".toList ++ ['@'] ++ [] ∧
      Location.IsOn ⟨2, 1, 7⟩ "// a\x0bb\n".toList ['@'] [] ∧ ¬IsTextOf ['b'] ['@'] [] ∧
      source.toList[7]? = some '@' := by
  intro source f
  have hline : IsLine "// a\x0bb\n".toList ['@'] [] :=
    ⟨.inr ⟨"// a\x0bb".toList, by decide⟩, by decide, .inl rfl⟩
  exact ⟨by decide +kernel, by decide, ⟨hline, by decide, by decide, by decide, by decide⟩,
    by simp [IsTextOf], by decide⟩

end Scriptlet
