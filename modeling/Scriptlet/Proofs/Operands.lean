import Mathlib.Tactic.Common
import Scriptlet.Proofs.Reading

/-!
# Operands on their own

Where an operand is due, what waits below it has no part in how it is read: neither the operators and
brackets before it, nor the open blocks, nor the statements that are done. So an operand can be read
on its own, with nothing around it.

* `unary? room k ts`: the operand that the tokens `ts` write, read on its own with room for `room`
  levels, where a token of kind `k` comes next. Signs belong to it, binary operators do not.
* `Frames`: a step inside of an operand is the same step on top of a phrase. There is one lemma for
  each function of the reader, up to `take_frames`.
* `run_of_unary?`: where an operand is due, the reader goes on after such tokens as after the operand.
-/

namespace Scriptlet

/-- The binary operator that a token of this kind writes. -/
def Token.Kind.binary? : Token.Kind → Option BinaryOperator
  | .symbol s => s.binary?
  | _ => none

/-- Does a token of this kind go on with the operand before it, by a call or an index? -/
def Token.Kind.opensPostfix : Token.Kind → Bool
  | .symbol s => s == .openParen || s == .openBracket
  | _ => false

namespace Reader

/-! ## Phrases on top of phrases -/

namespace Phrase

/-- The phrase `p` when the operators `ws` and the brackets `bs` are opened on top of it. -/
@[simp] def stack (p : Phrase) : List Pending → List (Bracket × List Pending) → Phrase
  | ws, [] => ⟨ws ++ p.pending, p.brackets, p.head⟩
  | ws, b :: bs => { (p.stack b.2 bs).enter b.1 with pending := ws }

/-- The phrase `q` on top of `p`, in the statement of `p`. -/
def onto (q p : Phrase) : Phrase := p.stack q.pending q.brackets

/-- The operators that wait outside of all brackets. -/
def outermost (q : Phrase) : List Pending := (q.brackets.map Prod.snd).getLastD q.pending

theorem onto_of_nil (ws : List Pending) (hd : Head) (p : Phrase) :
    (Phrase.mk ws [] hd).onto p = ⟨ws ++ p.pending, p.brackets, p.head⟩ := rfl

theorem onto_unary (q p : Phrase) (w : Pending) :
    ({ q with pending := w :: q.pending } : Phrase).onto p =
      { q.onto p with pending := w :: (q.onto p).pending } := by
  obtain ⟨ws, bs, hd⟩ := q
  cases bs with
  | nil => rfl
  | cons b bs => rfl

/-- Levels add up. -/
theorem levels_onto (q p : Phrase) : (q.onto p).levels = q.levels + p.levels := by
  obtain ⟨ws, bs, hd⟩ := q
  induction bs generalizing ws with
  | nil =>
    unfold levels
    rw [onto_of_nil]
    simp only [List.countP_append, List.foldr_nil]
    omega
  | cons b bs ih =>
    have hinner := ih b.2
    unfold levels onto at hinner ⊢
    simp only [stack, enter, List.foldr_cons] at hinner ⊢
    omega

end Phrase

namespace Mode

/-- Is the reader inside of an operand, or before one, with only signs outside of all brackets? -/
def inOperand : Mode → Bool
  | .operand q | .name q _ _ | .pathSymbol q _ _ | .pathCall q _ _ _ | .complete q _ =>
    q.outermost.all Pending.isUnary
  | _ => false

/-- The mode when its phrase stands on top of `p`. -/
def onto (p : Phrase) : Mode → Mode
  | .operand q => .operand (q.onto p)
  | .name q place n => .name (q.onto p) place n
  | .pathSymbol q place module => .pathSymbol (q.onto p) place module
  | .pathCall q place module symbol => .pathCall (q.onto p) place module symbol
  | .complete q e => .complete (q.onto p) e
  | mode => mode

/-- The operand that is whole in this mode, where a token of kind `k` comes next: two colons would go
on with a name. -/
def whole? (k : Token.Kind) : Mode → Option Node
  | .complete q e => if q.brackets.isEmpty then some (reduce 0 q.pending e).2 else none
  | .name q place n =>
    if q.brackets.isEmpty ∧ k ≠ .symbol .doubleColon then
      some (reduce 0 q.pending (.name (some place) n)).2
    else none
  | _ => none

end Mode

/-- The mode to which tokens lead that stay inside of an operand. -/
def operandMode (room : Nat) (mode : Mode) : List Token → Option Mode
  | [] => some mode
  | t :: ts =>
    match take room ⟨t.span, [], [], mode⟩ t with
    | .ok next => if next.mode.inOperand then operandMode room next.mode ts else none
    | .error _ => none

/-- The operand that tokens write, before a token of kind `k`, when nothing stands around it. -/
def unary? (room : Nat) (k : Token.Kind) (ts : List Token) : Option Node :=
  (operandMode room (.operand ⟨[], [], .expression default⟩) ts).bind (Mode.whole? k)

/-! ## Steps inside of an operand -/

theorem exists_reject (t : Token) (expected : Expected) :
    ∃ fault, (reject t expected : Except Fault Reader) = .error fault := by
  unfold reject
  split
  · exact ⟨_, rfl⟩
  · exact ⟨_, rfl⟩

theorem reject_ne_ok (t : Token) (expected : Expected) (r : Reader) : reject t expected ≠ .ok r := by
  obtain ⟨fault, h⟩ := exists_reject t expected
  intro hok
  rw [h] at hok
  cases hok

/-- Where a reader goes on inside of an operand, `r'` goes on so on top of `p`. -/
def Frames (p : Phrase) (r' : Reader) (y : Except Fault Reader) : Except Fault Reader → Prop
  | .ok next => next.mode.inOperand = true → y = .ok (r'.goto (next.mode.onto p))
  | .error _ => True

section

variable {room limit : Nat} {p : Phrase} {r r' : Reader} {y : Except Fault Reader}

theorem frames_goto (mode : Mode) :
    Frames p r' (.ok (r'.goto (mode.onto p))) (.ok (r.goto mode)) := fun _ => rfl

theorem frames_reject (t : Token) (expected : Expected) : Frames p r' y (reject t expected) := by
  obtain ⟨fault, h⟩ := exists_reject t expected
  rw [h]
  trivial

theorem frames_of_not_inOperand {next : Reader} (h : next.mode.inOperand = false) :
    Frames p r' y (.ok next) := by
  intro hin
  rw [h] at hin
  cases hin

theorem frames_deepen (hroom : room + r'.blocks.length + p.levels ≤ limit) (t : Token) (q : Phrase) :
    Frames p r' (deepen limit t (r'.blocks.length + (q.onto p).levels)
        (r'.goto (.operand (q.onto p))))
      (deepen room t (r.blocks.length + q.levels) (r.goto (.operand q))) := by
  unfold deepen
  by_cases hlevels : r.blocks.length + q.levels ≤ room
  · have hlimit : r'.blocks.length + (q.onto p).levels ≤ limit := by
      rw [Phrase.levels_onto]
      omega
    rw [if_pos hlevels, if_pos hlimit]
    exact frames_goto (.operand q)
  · rw [if_neg hlevels]
    trivial

theorem operand_frames (hroom : room + r'.blocks.length + p.levels ≤ limit) (q : Phrase)
    (t : Token) : Frames p r' (r'.operand limit (q.onto p) t) (r.operand room q t) := by
  unfold operand
  split
  · exact frames_goto (.complete q _)
  · exact frames_goto (.complete q _)
  · exact frames_goto (.complete q _)
  · exact frames_goto (.name q _ _)
  · exact frames_deepen hroom t (q.enter _)
  · -- a closing parenthesis ends the innermost bracket, which is one of the operand's own
    obtain ⟨ws, bs, hd⟩ := q
    cases ws with
    | cons w ws => exact frames_reject t _
    | nil =>
      cases bs with
      | nil => exact frames_reject t _
      | cons b bs =>
        obtain ⟨bracket, outer⟩ := b
        cases bracket with
        | index object => exact frames_reject t _
        | group | tuple | call => exact frames_goto (.complete ⟨outer, bs, hd⟩ _)
  · dsimp only
    split_ifs
    · rw [← Phrase.onto_unary]
      exact frames_deepen hroom t _
    · exact frames_reject t _
  · exact frames_reject t _

theorem terminate_frames (start : Span) (make : Option Span → Node) (t : Token) :
    Frames p r' y (r.terminate room start make t) := by
  unfold terminate
  split
  · exact frames_of_not_inOperand rfl
  · next hk =>
    unfold statement
    rw [hk]
    dsimp only
    split
    · exact frames_reject t _
    · exact frames_of_not_inOperand rfl
  · next hk =>
    unfold statement
    rw [hk]
    dsimp only
    split_ifs
    · exact frames_of_not_inOperand rfl
    · exact frames_reject t _
  · exact frames_reject t _

/-- Outside of all brackets the operand ends here. Inside of them nothing changes. -/
theorem settle_frames (q : Phrase) (e e' : Node) (t : Token) (h : q.brackets ≠ [] → e = e') :
    Frames p r' (r'.settle limit (q.onto p) e' t) (r.settle room q e t) := by
  obtain ⟨ws, bs, hd⟩ := q
  cases bs with
  | nil => exact terminate_frames _ _ t
  | cons b bs =>
    obtain ⟨bracket, outer⟩ := b
    rw [← h (List.cons_ne_nil _ _)]
    unfold settle
    dsimp only [Phrase.onto, Phrase.stack, Phrase.enter]
    cases bracket with
    | group start =>
      dsimp only
      split
      · exact frames_goto (.complete ⟨outer, bs, hd⟩ e)
      · exact frames_goto (.operand ⟨[], (.tuple start [e], outer) :: bs, hd⟩)
      · exact frames_reject t _
    | tuple start items =>
      dsimp only
      split
      · exact frames_goto (.complete ⟨outer, bs, hd⟩ _)
      · exact frames_goto (.operand ⟨[], (.tuple start (e :: items), outer) :: bs, hd⟩)
      · exact frames_reject t _
    | call callee arguments =>
      dsimp only
      split
      · exact frames_goto (.complete ⟨outer, bs, hd⟩ _)
      · exact frames_goto (.operand ⟨[], (.call callee (e :: arguments), outer) :: bs, hd⟩)
      · exact frames_reject t _
    | index object =>
      dsimp only
      split
      · exact frames_goto (.complete ⟨outer, bs, hd⟩ _)
      · exact frames_reject t _

theorem pending_onto {q : Phrase} (h : q.brackets ≠ []) : (q.onto p).pending = q.pending := by
  obtain ⟨ws, bs, hd⟩ := q
  cases bs with
  | nil => exact absurd rfl h
  | cons b bs => rfl

/-- A binary operator inside of brackets goes no further out. Outside of them it leaves the
operand. -/
theorem binary_frames (q : Phrase) (e : Node) (op : BinaryOperator) :
    Frames p r'
      (.ok (r'.goto (.operand { q.onto p with
        pending := .binary (reduce op.precedence (q.onto p).pending e).2 op ::
          (reduce op.precedence (q.onto p).pending e).1 })))
      (.ok (r.goto (.operand { q with
        pending := .binary (reduce op.precedence q.pending e).2 op ::
          (reduce op.precedence q.pending e).1 }))) := by
  obtain ⟨ws, bs, hd⟩ := q
  cases bs with
  | nil => exact frames_of_not_inOperand rfl
  | cons b bs => exact frames_goto (.operand ⟨_, b :: bs, hd⟩)

theorem complete_frames (hroom : room + r'.blocks.length + p.levels ≤ limit) (q : Phrase) (e : Node)
    (t : Token) : Frames p r' (r'.complete limit (q.onto p) e t) (r.complete room q e t) := by
  have hsettle : Frames p r' (r'.settle limit (q.onto p) (reduce 0 (q.onto p).pending e).2 t)
      (r.settle room q (reduce 0 q.pending e).2 t) := by
    apply settle_frames
    intro h
    rw [pending_onto h]
  unfold complete
  dsimp only
  split
  · split_ifs
    · exact frames_deepen hroom t (q.enter _)
    · trivial
  · exact frames_deepen hroom t (q.enter _)
  · split
    · exact binary_frames q e _
    · exact hsettle
  · exact hsettle

theorem afterName_frames (hroom : room + r'.blocks.length + p.levels ≤ limit) (q : Phrase)
    (place : Span) (name : String) (t : Token) :
    Frames p r' (r'.afterName limit (q.onto p) place name t) (r.afterName room q place name t) := by
  unfold afterName
  split
  · exact frames_goto (.pathSymbol q place name)
  · exact complete_frames hroom q _ t

/-- Inside of an operand, a token does on top of `p` what it does without. -/
theorem take_frames (hroom : room + r'.blocks.length + p.levels ≤ limit)
    (hin : r.mode.inOperand = true) (hmode : r'.mode = r.mode.onto p) (t : Token) :
    Frames p r' (r'.take limit t) (r.take room t) := by
  unfold take
  rw [hmode]
  cases h : r.mode with
  | operand q => exact operand_frames hroom q t
  | name q place name => exact afterName_frames hroom q place name t
  | complete q e => exact complete_frames hroom q e t
  | pathSymbol q place module =>
    dsimp only [Mode.onto]
    split
    · exact frames_goto (.pathCall q _ module _)
    · exact frames_reject t _
  | pathCall q place module symbol =>
    dsimp only [Mode.onto]
    split
    · exact complete_frames hroom q _ t
    · exact frames_reject t _
  | _ => rw [h] at hin; cases hin

/-- The end of input is no part of an operand. -/
theorem take_eof_frames (hin : r.mode.inOperand = true) {t : Token} (ht : t.kind = .eof) :
    Frames p r' y (r.take room t) := by
  have hsettle (q : Phrase) (e : Node) : Frames p r' y (r.settle room q e t) := by
    obtain ⟨ws, bs, hd⟩ := q
    cases bs with
    | nil => exact terminate_frames _ _ t
    | cons b bs =>
      obtain ⟨bracket, outer⟩ := b
      unfold settle
      rw [ht]
      cases bracket with
      | group | tuple | call | index => exact frames_reject t _
  have hcomplete (q : Phrase) (e : Node) : Frames p r' y (r.complete room q e t) := by
    unfold complete
    rw [ht]
    exact hsettle q _
  unfold take
  cases h : r.mode with
  | operand q => unfold operand; rw [ht]; exact frames_reject t _
  | name q place name => unfold afterName; rw [ht]; exact hcomplete q _
  | complete q e => exact hcomplete q e
  | pathSymbol | pathCall => dsimp only; rw [ht]; exact frames_reject t _
  | _ => rw [h] at hin; cases hin

end

/-! ## Runs inside of an operand -/

section

variable {room limit : Nat} {p : Phrase} {blocks : List OpenBlock}

/-- A token that stays inside of an operand leads on, on top of `p`. -/
theorem leads_of_take (hroom : room + blocks.length + p.levels ≤ limit) {mode : Mode}
    (hin : mode.inOperand = true) {t : Token} {next : Reader}
    (h : take room ⟨t.span, [], [], mode⟩ t = .ok next) (hnext : next.mode.inOperand = true)
    (last : Span) (done : List Node) :
    Leads limit ⟨last, done, blocks, mode.onto p⟩ [t] ⟨t.span, done, blocks, next.mode.onto p⟩ := by
  have ht : t.kind ≠ .eof := by
    intro ht
    have hframes : Frames p ⟨last, done, blocks, mode⟩ (reject t .expression) (.ok next) :=
      h ▸ take_eof_frames hin ht
    exact reject_ne_ok t _ _ (hframes hnext)
  have hframes : Frames p ⟨last, done, blocks, mode.onto p⟩
      (take limit ⟨last, done, blocks, mode.onto p⟩ t) (.ok next) :=
    h ▸ take_frames hroom hin rfl t
  exact Leads.goto rfl ht (hframes hnext)

/-- Tokens that stay inside of an operand lead to the same mode on top of `p`. -/
theorem leads_of_operandMode (hroom : room + blocks.length + p.levels ≤ limit) {ts : List Token}
    {mode mode' : Mode} (hin : mode.inOperand = true) (h : operandMode room mode ts = some mode')
    (last : Span) (done : List Node) :
    mode'.inOperand = true ∧
      Leads limit ⟨last, done, blocks, mode.onto p⟩ ts
        ⟨(ts.map Token.span).getLastD last, done, blocks, mode'.onto p⟩ := by
  induction ts generalizing mode last with
  | nil =>
    cases h
    exact ⟨hin, fun _ => rfl⟩
  | cons t ts ih =>
    unfold operandMode at h
    split at h
    · next next hnext =>
      split_ifs at h with hin'
      obtain ⟨hmode', hleads⟩ := ih hin' h t.span
      rw [List.map_cons, List.getLastD_cons]
      exact ⟨hmode', (leads_of_take hroom hin hnext hin' last done).trans hleads⟩
    · cases h

end

/-! ## Whole operands -/

theorem precedence_lt_six (op : BinaryOperator) : op.precedence < 6 := by
  cases op <;> decide

/-- Signs take the operand before any operator that waits below them. -/
theorem reduce_signs {bound : Nat} (hbound : bound ≤ 6) {ws : List Pending}
    (hws : ws.all Pending.isUnary = true) (vs : List Pending) (e : Node) :
    reduce bound (ws ++ vs) e = reduce bound vs (reduce 0 ws e).2 := by
  induction ws generalizing e with
  | nil => rfl
  | cons w ws ih =>
    rw [List.all_cons, Bool.and_eq_true] at hws
    have hstrength : w.strength = 6 := by
      cases w with
      | unary place s => rfl
      | binary left op => cases hws.1
    rw [List.cons_append, reduce, reduce, hstrength, if_pos hbound, if_pos (Nat.zero_le _)]
    exact ih hws.2 (w.close e)

/-- What comes after an operand takes its signs with it, unless it goes on with the operand. -/
theorem complete_signs {ws : List Pending} (hws : ws.all Pending.isUnary = true) {t : Token}
    (ht : t.kind.opensPostfix = false) (limit : Nat) (r : Reader) (p : Phrase) (e : Node) :
    r.complete limit ⟨ws ++ p.pending, p.brackets, p.head⟩ e t =
      r.complete limit p (reduce 0 ws e).2 t := by
  have hsettle : r.settle limit ⟨ws ++ p.pending, p.brackets, p.head⟩
      (reduce 0 (ws ++ p.pending) e).2 t =
        r.settle limit p (reduce 0 p.pending (reduce 0 ws e).2).2 t := by
    rw [reduce_signs (Nat.zero_le 6) hws]
    rfl
  unfold complete
  dsimp only
  split
  · next hk => rw [hk] at ht; cases ht
  · next hk => rw [hk] at ht; cases ht
  · split
    · next op hop => rw [reduce_signs (Nat.le_of_lt (precedence_lt_six op)) hws]
    · exact hsettle
  · exact hsettle

/-- In a mode in which an operand is whole, the next token comes after that operand. -/
theorem take_of_whole? {limit : Nat} {p : Phrase} {mode : Mode} {e : Node} {t : Token}
    (hin : mode.inOperand = true) (h : mode.whole? t.kind = some e)
    (ht : t.kind.opensPostfix = false) (last : Span) (done : List Node) (blocks : List OpenBlock) :
    take limit ⟨last, done, blocks, mode.onto p⟩ t =
      take limit ⟨last, done, blocks, .complete p e⟩ t := by
  cases mode with
  | complete q x =>
    obtain ⟨ws, bs, hd⟩ := q
    dsimp only [Mode.whole?] at h
    split_ifs at h with hbs
    cases List.isEmpty_iff.1 hbs
    cases h
    exact complete_signs hin ht limit _ p x
  | name q place n =>
    obtain ⟨ws, bs, hd⟩ := q
    dsimp only [Mode.whole?] at h
    split_ifs at h with hbs
    cases List.isEmpty_iff.1 hbs.1
    cases h
    show afterName limit _ ⟨ws ++ p.pending, p.brackets, p.head⟩ place n t = _
    unfold afterName
    split
    · next hk => exact absurd hk hbs.2
    · exact complete_signs hin ht limit _ p _
  | _ => cases h

theorem run_congr {limit : Nat} {r r' : Reader} {t : Token} (h : r.take limit t = r'.take limit t)
    (rest : List Token) : r.run limit (t :: rest) = r'.run limit (t :: rest) := by
  unfold run advance
  rw [h]

/-- Where an operand is due, the reader goes on after the tokens of one as after the operand. -/
theorem run_of_unary? {room limit : Nat} {p : Phrase} {blocks : List OpenBlock} {ts : List Token}
    {e : Node} {t : Token} (h : unary? room t.kind ts = some e) (ht : t.kind.opensPostfix = false)
    (hroom : room + blocks.length + p.levels ≤ limit) (last : Span) (done : List Node)
    (rest : List Token) :
    run limit ⟨last, done, blocks, .operand p⟩ (ts ++ t :: rest) =
      run limit ⟨(ts.map Token.span).getLastD last, done, blocks, .complete p e⟩ (t :: rest) := by
  obtain ⟨mode, hmode, hwhole⟩ := Option.bind_eq_some_iff.1 h
  obtain ⟨hin, hleads⟩ := leads_of_operandMode hroom rfl hmode last done
  exact (hleads (t :: rest)).trans (run_congr (take_of_whole? hin hwhole ht _ done blocks) rest)

end Reader

end Scriptlet
