import Scriptlet.Text.Decimal

/-!
# Floating-point numbers

Numbers of 64 bits with a binary exponent. `Floating.ofDecimal` is the one nearest to a decimal number, and
of two that are equally near the one with the even significand. `Floating.text` shows a number by the
shortest decimal number that is nearest to no other one.
-/

namespace Scriptlet

/-- A power of two. -/
def binaryPower (n : Nat) : Nat := Nat.pow 2 n

/-- The significands and exponents of numbers of 64 bits. A significand that could be larger for the same
number is not allowed, except at the least exponent. -/
def IsBinary64 (significand : Nat) (exponent : Int) : Prop :=
  significand < binaryPower 53 ∧ -1074 ≤ exponent ∧ exponent ≤ 971 ∧
    (binaryPower 52 ≤ significand ∨ exponent = -1074)

instance (significand : Nat) (exponent : Int) : Decidable (IsBinary64 significand exponent) :=
  inferInstanceAs (Decidable (_ ∧ _))

/-- A finite number of 64 bits: `significand * 2 ^ exponent`, with a sign. Zero has a sign too. -/
structure Binary64 where
  negative : Bool
  significand : Nat
  exponent : Int
  isBinary64 : IsBinary64 significand exponent
  deriving DecidableEq

namespace Binary64

instance : Inhabited Binary64 := ⟨⟨false, 0, -1074, by decide⟩⟩

/-- The ratio of integers that the number is, without its sign. -/
def ratio (f : Binary64) : Nat × Nat :=
  (f.significand * binaryPower f.exponent.toNat, binaryPower (-f.exponent).toNat)

/-- The number, exactly. -/
def toRat (f : Binary64) : Rat :=
  (if f.negative then -1 else 1) * (f.significand : Rat) * 2 ^ f.exponent

end Binary64

/-- A finite number, or what lies beyond such numbers. -/
inductive Floating where
  | finite (f : Binary64)
  | infinite (negative : Bool)
  | undefined
  deriving DecidableEq, Inhabited

namespace Floating

/-! ## Rounding -/

/-- The nearest integer to a ratio; of two, the even one. -/
def nearest (numerator denominator : Nat) : Nat :=
  let q := numerator / denominator
  let r := numerator % denominator
  if 2 * r < denominator || (2 * r == denominator && q % 2 == 0) then q else q + 1

/-- The exponent of the largest power of two that is at most a positive ratio. -/
def binade (numerator denominator : Nat) : Int :=
  let e : Int := numerator.log2 - denominator.log2
  if denominator * binaryPower e.toNat ≤ numerator * binaryPower (-e).toNat then e else e - 1

/-- The number with a significand and an exponent; one that is too large is infinite. Rounding may have
brought a significand to the next power of two. -/
def ofParts (negative : Bool) (significand : Nat) (exponent : Int) : Floating :=
  let (s, e) :=
    if significand = binaryPower 53 then (binaryPower 52, exponent + 1) else (significand, exponent)
  if h : IsBinary64 s e then .finite ⟨negative, s, e, h⟩ else .infinite negative

/-- The number nearest to a ratio. -/
def ofRatio (negative : Bool) (numerator denominator : Nat) : Floating :=
  let e := if numerator = 0 then -1074 else max (binade numerator denominator - 52) (-1074)
  ofParts negative (nearest (numerator * binaryPower (-e).toNat) (denominator * binaryPower e.toNat)) e

/-- The digits of a decimal number before its point, or minus the zeros after it, beyond which the number is
infinite or zero. -/
def decimalRange : Int := 400

/-- The number nearest to `digits * 10 ^ exponent`. -/
def ofDecimal (negative : Bool) (digits : Nat) (exponent : Int) : Floating :=
  let magnitude := (Nat.toDigits 10 digits).length + exponent
  if digits = 0 || magnitude < -decimalRange then ofRatio negative 0 1
  else if decimalRange < magnitude then .infinite negative
  else
    ofRatio negative (digits * Decimal.power exponent.toNat) (Decimal.power (-exponent).toNat)

/-! ## Text -/

/-- The exponent of the largest power of ten that is at most a positive ratio. -/
def decade (numerator denominator : Nat) : Int :=
  if denominator ≤ numerator then (Nat.toDigits 10 (numerator / denominator)).length - 1
  else
    let n := (Nat.toDigits 10 (denominator / numerator)).length
    if denominator ≤ numerator * Decimal.power (n - 1) then 1 - n else -n

/-- A decimal number of `count` digits that is nearest to no other number than `f`: the closest one, as its
digits and its exponent. -/
def decimal? (f : Binary64) (count : Nat) : Option (Nat × Int) :=
  let (numerator, denominator) := f.ratio
  let e : Int := decade numerator denominator + 1 - count
  let n := numerator * Decimal.power (-e).toNat
  let d := denominator * Decimal.power e.toNat
  let first := nearest n d
  let second := if first = n / d then n / d + 1 else n / d
  [first, second].findSome? fun digits =>
    if ofDecimal f.negative digits e = .finite f then some (digits, e) else none

/-- The shortest decimal number for `f`, as its digits and the place of its point. Seventeen digits are
always enough. -/
def shortest (f : Binary64) : List Char × Int :=
  if f.significand = 0 then (['0'], 1)
  else
    let (n, e) := (((List.range 17).map (· + 1)).findSome? (decimal? f)).getD (0, 0)
    let digits := Nat.toDigits 10 n
    ((digits.reverse.dropWhile (· == '0')).reverse, digits.length + e)

/-- A decimal number whose point stands after `point` digits; far from its digits it is told by a power of
ten. -/
def decimalText (digits : List Char) (point : Int) : List Char :=
  let zeros (n : Int) : List Char := List.replicate n.toNat '0'
  if -4 < point && point ≤ 16 then
    if point ≤ 0 then '0' :: '.' :: zeros (-point) ++ digits
    else
      let whole := digits.take point.toNat ++ zeros (point - digits.length)
      let places := digits.drop point.toNat
      whole ++ '.' :: (if places.isEmpty then ['0'] else places)
  else
    let power := Nat.toDigits 10 (point - 1).natAbs
    let places := digits.drop 1
    digits.take 1 ++ (if places.isEmpty then [] else '.' :: places) ++
      'e' :: (if point < 1 then '-' else '+') :: zeros (2 - power.length) ++ power

/-- The text of a number. -/
def text : Floating → String
  | .finite f =>
    let (digits, point) := shortest f
    String.ofList ((if f.negative then ['-'] else []) ++ decimalText digits point)
  | .infinite negative => if negative then "-inf" else "inf"
  | .undefined => "nan"

end Floating

/-! ## Comparison -/

/-- What a number counts as where numbers of several types are compared. -/
inductive Quantity where
  | finite (q : Rat)
  | infinite (negative : Bool)
  | undefined
  deriving DecidableEq, Inhabited

/-- The exact quantity of a number. -/
def Floating.quantity : Floating → Quantity
  | .finite f => .finite f.toRat
  | .infinite negative => .infinite negative
  | .undefined => .undefined

namespace Quantity

/-- Is one quantity less than another? One that is undefined is neither less nor greater. -/
def less : Quantity → Quantity → Bool
  | .finite q, .finite r => decide (q < r)
  | .finite _, .infinite negative => !negative
  | .infinite negative, .finite _ => negative
  | .infinite negative, .infinite negative' => negative && !negative'
  | _, _ => false

end Quantity

end Scriptlet
