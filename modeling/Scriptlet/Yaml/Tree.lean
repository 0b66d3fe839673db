import Scriptlet.Text.Decimal
import Scriptlet.Value.Datum

/-!
# Trees of documents

A `Tree` is what a document is made of: scalars as they are written, lists and mappings. A quoted scalar
is a text. A scalar without quotes is null, a boolean, a number or a text, by the way it is written.
`Tree.datum` gives a tree its meaning, once the whole of it is there.
-/

namespace Scriptlet.Yaml

open Scriptlet.Text

/-- What a document is made of. -/
inductive Tree where
  | plain (text : String)
  | quoted (text : String)
  | list (items : List Tree)
  | mapping (keys values : List Tree)
  deriving Inhabited

/-- What keeps a document from being read: it is malformed or stands for no data, which a message tells, or
an exception of the class `kind` escapes. -/
inductive Defect where
  | malformed (message : String)
  | raised (kind message : String)
  deriving DecidableEq, Inhabited, Repr

/-- A reader of documents: what a text stands for. -/
abbrev Reader := String → Except Defect Datum

namespace Defect

/-- A scalar or a key that stands for no data. -/
def meaningless : Defect := .malformed "could not determine a constructor"

/-- An integer with too many digits. -/
def longNumber (digits : Nat) : Defect :=
  .raised "ValueError" ("Exceeds the limit (" ++ toString Decimal.plainLimit ++
    " digits) for integer string conversion: value has " ++ toString digits ++
    " digits; use sys.set_int_max_str_digits() to increase the limit")

end Defect

namespace Tree

/-- The tree of a place where nothing is written. -/
def empty : Tree := .plain ""

/-- The mapping of a list of entries. -/
def ofEntries (entries : List (Tree × Tree)) : Tree :=
  .mapping (entries.map (·.1)) (entries.map (·.2))

end Tree

/-! ## Meaning of plain scalars -/

/-- The spellings of null. -/
def nulls : List String := ["", "~", "null", "Null", "NULL"]

/-- The spellings of true. -/
def trues : List String := ["yes", "Yes", "YES", "true", "True", "TRUE", "on", "On", "ON"]

/-- The spellings of false. -/
def falses : List String := ["no", "No", "NO", "false", "False", "FALSE", "off", "Off", "OFF"]

/-- The spellings of infinity, which a sign may precede. -/
def infinities : List String := [".inf", ".Inf", ".INF"]

/-- The spellings of what is no number. -/
def undefineds : List String := [".nan", ".NaN", ".NAN"]

/-- Texts that stand for operations on mappings and not for data. -/
def operations : List String := ["<<", "="]

/-- Digits of a class, which underscores may group. -/
def areDigits (isOne : Char → Bool) (cs : List Char) : Bool :=
  cs.all fun c => isOne c || c == '_'

/-- Digits without the underscores between them. -/
def bare (cs : List Char) : List Char := cs.filter (· != '_')

/-- `0` to `7`. -/
def isOctal (c : Char) : Bool := '0' ≤ c && c ≤ '7'

/-- The places of base sixty after the first, each after a colon and less than sixty, added to
`value`. -/
def sixties (value : Nat) : List Char → Option Nat
  | [] => some value
  | ':' :: a :: b :: cs =>
    if isDecimal a && isDecimal b then
      if a ≤ '5' then sixties (value * 60 + ofDigits 10 [a, b]) cs else none
    else if isDecimal a then sixties (value * 60 + ofDigits 10 [a]) (b :: cs)
    else none
  | [':', a] => if isDecimal a then some (value * 60 + ofDigits 10 [a]) else none
  | _ => none

/-- A number without a sign: binary after `0b`, hexadecimal after `0x`, octal after any other zero,
and of base sixty with colons between its places. -/
def natural? : List Char → Option Nat
  | [] => none
  | ['0'] => some 0
  | '0' :: 'b' :: d :: ds => guarded isBinary 2 (d :: ds)
  | '0' :: 'x' :: d :: ds => guarded isHex 16 (d :: ds)
  | '0' :: ds => guarded isOctal 8 ds
  | d :: ds =>
    let first := (d :: ds).takeWhile (· != ':')
    if isDecimal d && areDigits isDecimal first then
      sixties (Decimal.read (bare first)) ((d :: ds).dropWhile (· != ':'))
    else none
where
  /-- The number of digits of a class. -/
  guarded (isOne : Char → Bool) (base : Nat) (ds : List Char) : Option Nat :=
    if areDigits isOne ds then some (ofDigits base (bare ds)) else none

/-- Is there a minus sign, and what follows the sign? -/
def splitSign : List Char → Bool × List Char
  | '-' :: cs => (true, cs)
  | '+' :: cs => (false, cs)
  | cs => (false, cs)

/-- An integer. -/
def integer? (cs : List Char) : Option Int :=
  let (negative, digits) := splitSign cs
  (natural? digits).map fun n => if negative then -(n : Int) else n

/-- The exponent after the digits of a number, zero where there is none: a letter, a sign and digits. -/
def exponent? : List Char → Option Int
  | [] => some 0
  | c :: sign :: d :: ds =>
    if (c == 'e' || c == 'E') && (sign == '-' || sign == '+') && (d :: ds).all isDecimal then
      let n : Int := Decimal.read (d :: ds)
      some (if sign == '-' then -n else n)
    else none
  | _ => none

/-- Digits with a decimal point between or before them, and an exponent. -/
def pointed? (negative : Bool) (whole rest : List Char) : Option Floating :=
  let isPlace (c : Char) : Bool := isDecimal c || c == '_'
  let places := bare (rest.takeWhile isPlace)
  (exponent? (rest.dropWhile isPlace)).map fun e =>
    .ofDecimal negative (Decimal.read (bare whole ++ places)) (e - places.length)

/-- A number with a decimal point: digits stand before the point, or after it where no sign precedes. The
digits before it may be of base sixty with colons between its places; then there is no exponent. -/
def fraction? (cs : List Char) : Option Floating :=
  let (negative, digits) := splitSign cs
  let whole := digits.takeWhile (· != '.')
  let rest := (digits.dropWhile (· != '.')).drop 1
  if !digits.contains '.' then none
  else if whole.isEmpty then
    if digits = cs && rest.head?.any isDecimal then pointed? negative whole rest else none
  else if !whole.head?.any isDecimal then none
  else if areDigits isDecimal whole then pointed? negative whole rest
  else if areDigits isDecimal rest && areDigits isDecimal (whole.takeWhile (· != ':')) then
    (sixties (Decimal.read (bare (whole.takeWhile (· != ':')))) (whole.dropWhile (· != ':'))).map
      fun n =>
        let places := bare rest
        .ofDecimal negative (n * Decimal.power places.length + Decimal.read places) (-places.length)
  else none

/-- A number with a decimal point, or what lies beyond such numbers. -/
def floating? (cs : List Char) : Option Floating :=
  let (negative, unsigned) := splitSign cs
  if String.ofList unsigned ∈ infinities then some (.infinite negative)
  else if String.ofList cs ∈ undefineds then some .undefined
  else fraction? cs

/-- The number of digits of an integer that are converted from decimal in one step. -/
def decimalDigits (cs : List Char) : Nat :=
  match (splitSign cs).2 with
  | '0' :: _ => 0
  | ds => (bare (ds.takeWhile (· != ':'))).length

/-- What a scalar without quotes stands for. -/
def meaning (s : String) : Except Defect Datum :=
  let cs := s.toList
  if s ∈ nulls then .ok .null
  else if s ∈ trues then .ok (.bool true)
  else if s ∈ falses then .ok (.bool false)
  else if s ∈ operations then .error .meaningless
  else
    match integer? cs, floating? cs with
    | some n, _ =>
      if decimalDigits cs ≤ Decimal.plainLimit then .ok (.int n)
      else .error (.longNumber (decimalDigits cs))
    | none, some f => .ok (.float f)
    | none, none => .ok (.str s)

/-! ## Mappings -/

/-- Do two keys count as one? -/
def sameKey (a b : Datum) : Bool :=
  match a, b with
  | .str s, .str t => s == t
  | .null, .null => true
  | a, b =>
    match a.quantity?, b.quantity? with
    | some q, some r => q == r
    | _, _ => false

/-- A mapping with one more entry; a later entry of a key replaces the value of an earlier one. -/
def putEntry (entries : List (Datum × Datum)) (key value : Datum) : List (Datum × Datum) :=
  if entries.any (sameKey key ·.1) then
    entries.map fun e => if sameKey key e.1 then (e.1, value) else e
  else entries ++ [(key, value)]

/-- May the datum be a key? Collections may not. -/
def isKey : Datum → Bool
  | .list _ | .mapping _ _ => false
  | _ => true

/-- The mapping of a list of entries. -/
def mapping (entries : List (Datum × Datum)) : Datum :=
  let kept := entries.foldl (fun es e => putEntry es e.1 e.2) []
  .mapping (kept.map (·.1)) (kept.map (·.2))

/-! ## Meaning of trees -/

mutual

/-- What a tree stands for. Keys are looked at before values. -/
@[simp] def Tree.datum : Tree → Except Defect Datum
  | .plain text => meaning text
  | .quoted text => .ok (.str text)
  | .list items =>
    match Tree.data items with
    | .ok ds => .ok (.list ds)
    | .error e => .error e
  | .mapping keys values =>
    match Tree.data keys, Tree.data values with
    | .ok ks, .ok vs => if ks.all isKey then .ok (Yaml.mapping (ks.zip vs)) else .error .meaningless
    | .ok ks, .error e => .error (if ks.all isKey then e else .meaningless)
    | .error e, _ => .error e

/-- What several trees stand for. -/
@[simp] def Tree.data : List Tree → Except Defect (List Datum)
  | [] => .ok []
  | t :: ts =>
    match Tree.datum t with
    | .ok d =>
      match Tree.data ts with
      | .ok ds => .ok (d :: ds)
      | .error e => .error e
    | .error e => .error e

end

end Scriptlet.Yaml
