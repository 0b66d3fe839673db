import Scriptlet.Yaml.Scalar

/-!
# Flow collections

Lists in brackets and mappings in braces. Inside them indentation does not count.
-/

namespace Scriptlet.Yaml

/-- The place after the colon that makes a key of what stands between two places. -/
def afterColon? (inFlow : Bool) (start stop : Cursor) : Option Cursor :=
  let k := stop.next.2
  match k.rest with
  | ':' :: cs =>
    if start.mayBeKey k && (inFlow || startsBlank cs) then some (k.skip 1) else none
  | _ => none

mutual

/-- One value and the place after it. -/
def flowNode : Nat → Cursor → Option (Tree × Cursor)
  | 0, _ => none
  | fuel + 1, k =>
    if k.isEnd then none
    else
      match k.rest with
      | '[' :: _ => flowItems fuel [] (k.skip 1)
      | '\x7b' :: _ => flowPairs fuel [] (k.skip 1)
      | _ => leaf true 0 k

/-- The items of a list after those read, newest first, and the place after its bracket. A single
entry of a mapping may stand for an item. -/
def flowItems : Nat → List Tree → Cursor → Option (Tree × Cursor)
  | 0, _, _ => none
  | fuel + 1, items, k =>
    let k := k.next.2
    match k.rest with
    | ']' :: _ => some (.list items.reverse, k.skip 1)
    | _ =>
      match flowEntry fuel k with
      | none => none
      | some (key, value, stop) =>
        let item :=
          match value with
          | some v => .ofEntries [(key, v)]
          | none => key
        match stop.next.2.rest with
        | ',' :: _ => flowItems fuel (item :: items) (stop.next.2.skip 1)
        | ']' :: _ => some (.list (item :: items).reverse, stop.next.2.skip 1)
        | _ => none

/-- The entries of a mapping after those read, newest first, and the place after its brace. -/
def flowPairs : Nat → List (Tree × Tree) → Cursor → Option (Tree × Cursor)
  | 0, _, _ => none
  | fuel + 1, pairs, k =>
    let k := k.next.2
    match k.rest with
    | '\x7d' :: _ => some (.ofEntries pairs.reverse, k.skip 1)
    | _ =>
      match flowEntry fuel k with
      | none => none
      | some (key, value, stop) =>
        let pairs := (key, value.getD .empty) :: pairs
        match stop.next.2.rest with
        | ',' :: _ => flowPairs fuel pairs (stop.next.2.skip 1)
        | '\x7d' :: _ => some (.ofEntries pairs.reverse, stop.next.2.skip 1)
        | _ => none

/-- A value, the value after its colon if it is a key, and the place after them. -/
def flowEntry : Nat → Cursor → Option (Tree × Option Tree × Cursor)
  | 0, _ => none
  | fuel + 1, k =>
    match flowNode fuel k with
    | none => none
    | some (key, stop) =>
      match afterColon? true k stop with
      | none => some (key, none, stop)
      | some after =>
        match after.next.2.rest with
        | ',' :: _ | ']' :: _ | '\x7d' :: _ => some (key, some .empty, after)
        | _ => (flowNode fuel after.next.2).map fun r => (key, some r.1, r.2)

end

end Scriptlet.Yaml
