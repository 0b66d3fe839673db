import Scriptlet.Text.Lines
import Scriptlet.Yaml.Flow

/-!
# Documents

Block lists and mappings are told by the columns in which their parts start. `read` reads the only
document of a text; it gives null for an empty one, and a defect where the text is malformed, goes
beyond lists, mappings, and plain or quoted scalars, or has a number that cannot be read.
-/

namespace Scriptlet.Yaml

/-- Does an item of a block list start here? -/
def isItem : List Char → Bool
  | '-' :: cs => startsBlank cs
  | _ => false

/-- The key that starts here, and the place after its colon. -/
def key? (least : Nat) (k : Cursor) : Option (Tree × Cursor) :=
  (leaf false least k).bind fun r => (afterColon? false k r.2).map fun after => (r.1, after)

/-- What comes after a part of a block at a column: nothing that belongs to the block, a place where
its next part may start, or something out of place. -/
inductive Following where
  | outside
  | part (k : Cursor)
  | misplaced
  deriving DecidableEq, Inhabited, Repr

/-- What comes after a part of a block at `column` that ended at `stop`. -/
def following (column : Nat) (stop : Cursor) : Following :=
  let (crossed, k) := stop.next
  if k.isEnd then .outside
  else if !crossed || column < k.column then .misplaced
  else if k.column = column then .part k
  else .outside

mutual

/-- The value that starts here, and the place after it. A block collection may start here only where
`mayOpen`; the lines of a plain scalar are indented to at least `least`. -/
def blockNode : Nat → Nat → Bool → Cursor → Option (Tree × Cursor)
  | 0, _, _, _ => none
  | fuel + 1, least, mayOpen, k =>
    if isItem k.rest then
      if mayOpen then blockItems fuel k.column false [] k else none
    else if (key? least k).isSome then
      if mayOpen then blockFields fuel k.column [] k else none
    else
      match k.rest with
      | '[' :: _ | '\x7b' :: _ => flowNode fuel k
      | _ => leaf false least k

/-- The items of the list at `column` after those read, newest first, and the place after the list. A
list that is `level` with the mapping around it ends before the next key of that mapping. -/
def blockItems : Nat → Nat → Bool → List Tree → Cursor → Option (Tree × Cursor)
  | 0, _, _, _, _ => none
  | fuel + 1, column, level, items, k =>
    let after := k.skip 1
    let (crossed, inner) := after.next
    let value :=
      if !inner.isEnd && (!crossed || column < inner.column) then
        blockNode fuel (column + 1) true inner
      else some (.empty, after)
    match value with
    | none => none
    | some (item, stop) =>
      match following column stop with
      | .outside => some (.list (item :: items).reverse, stop)
      | .misplaced => none
      | .part k =>
        if isItem k.rest then blockItems fuel column level (item :: items) k
        else if level then some (.list (item :: items).reverse, stop)
        else none

/-- The entries of the mapping at `column` after those read, newest first, and the place after the
mapping. -/
def blockFields : Nat → Nat → List (Tree × Tree) → Cursor → Option (Tree × Cursor)
  | 0, _, _, _ => none
  | fuel + 1, column, fields, k =>
    match key? (column + 1) k with
    | none => none
    | some (key, after) =>
      let (crossed, inner) := after.next
      let value :=
        if inner.isEnd then some (.empty, after)
        else if !crossed || column < inner.column then
          blockNode fuel (column + 1) crossed inner
        else if inner.column = column && isItem inner.rest then
          blockItems fuel column true [] inner
        else some (.empty, after)
      match value with
      | none => none
      | some (v, stop) =>
        let fields := (key, v) :: fields
        match following column stop with
        | .outside => some (.ofEntries fields.reverse, stop)
        | .misplaced => none
        | .part k => blockFields fuel column fields k

end

/-! ## Whole texts -/

/-- Is there nothing left but marks that end the document? -/
def isOver : Nat → Cursor → Bool
  | 0, _ => false
  | fuel + 1, k =>
    let k := k.next.2
    k.rest.isEmpty || (k.column == 0 && opensWith '.' k.rest && isOver fuel (k.skip 3))

/-- The only document from a place on. -/
def document? (fuel : Nat) (start : Cursor) : Option Tree :=
  let k := start.next.2
  let opened := k.column == 0 && opensWith '-' k.rest
  let start := if opened then k.skip 3 else k
  let (crossed, inner) := start.next
  if inner.rest.isEmpty then some .empty
  else
    let content :=
      if !inner.isEnd then blockNode fuel 0 (crossed || !opened) inner
      else if opened then some (.empty, start)
      else none
    match content with
    | some (t, stop) => if isOver fuel stop then some t else none
    | none => none

/-- May the character stand in a document? -/
def isAllowed (c : Char) : Bool :=
  c == '\t' || c == '\n' || c == '\u0085' || (0x20 ≤ c.toNat && c.toNat ≤ 0x7e) ||
    (0xa0 ≤ c.toNat && c.toNat ≤ 0xfffd) || 0x10000 ≤ c.toNat

/-- The tree of a text. -/
def tree? (s : String) : Option Tree :=
  let cs := Text.unixBreaks s.toList
  let text := if cs.head? = some '\ufeff' then cs.tail else cs
  if text.all isAllowed then document? (3 * text.length + 3) ⟨0, text⟩ else none

/-- What a text stands for. -/
def read : Reader := fun s =>
  match tree? s with
  | none => .error (.malformed "could not read the document")
  | some t => t.datum

end Scriptlet.Yaml
