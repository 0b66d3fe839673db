import Scriptlet.Text.Digit

/-!
# Decimal text of integers

Integers have any size. Long digit runs are read and written in blocks of `blockSize` digits, so
that no single conversion meets more digits than a block holds; `plainLimit` is the number of digits
up to which a number is converted in one step.
-/

namespace Scriptlet.Decimal

open Scriptlet.Text

/-- Digits of a block. -/
def blockSize : Nat := 1000

/-- The most digits that are converted in one step. -/
def plainLimit : Nat := 4300

/-- A power of ten. -/
def power (n : Nat) : Nat := Nat.pow 10 n

theorem one_lt_power {n : Nat} (h : n ≠ 0) : 1 < power n := Nat.one_lt_pow h (by decide)

/-! ## Reading -/

/-- Continues `value` with the digits of `digits`, a block at a time. -/
def readBlocks (value : Nat) (digits : List Char) : Nat :=
  if digits = [] then value
  else
    let block := digits.take blockSize
    readBlocks (value * power block.length + ofDigits 10 block) (digits.drop blockSize)
termination_by digits.length
decreasing_by
  rename_i h
  have : 0 < digits.length := List.length_pos_iff.2 h
  simp only [List.length_drop, blockSize]
  omega

/-- The number that a run of decimal digits denotes. -/
def read (digits : List Char) : Nat :=
  if digits.length ≤ blockSize then ofDigits 10 digits else readBlocks 0 digits

/-! ## Writing -/

/-- The digits of `n`, with zeros in front up to a whole block. -/
def padded (n : Nat) : List Char :=
  let digits := Nat.toDigits 10 n
  List.replicate (blockSize - digits.length) '0' ++ digits

/-- The blocks of `n`, least significant first; none for zero. -/
def blocks (n : Nat) : List Nat :=
  if n = 0 then [] else n % power blockSize :: blocks (n / power blockSize)
termination_by n
decreasing_by
  exact Nat.div_lt_self (by omega) (one_lt_power (by decide))

/-- The digits of `n`, written block by block. -/
def writeBlocks (n : Nat) : List Char :=
  match (blocks n).reverse with
  | [] => []
  | top :: rest => Nat.toDigits 10 top ++ rest.flatMap padded

/-- The decimal digits of `n`. -/
def write (n : Nat) : List Char :=
  if n < power plainLimit then Nat.toDigits 10 n else writeBlocks n

/-- The digits of an integer, after a minus sign if it is negative. -/
def signed : Int → List Char
  | .ofNat n => write n
  | .negSucc n => '-' :: write (n + 1)

/-- The decimal text of an integer. -/
def ofInt (n : Int) : String := String.ofList (signed n)

/-- The decimal text of an integer, unless it has more than `plainLimit` digits. -/
def ofInt? (n : Int) : Option String :=
  if n.natAbs < power plainLimit then some (ofInt n) else none

/-! ## Long numbers in messages -/

/-- Digits that are kept at either end of an abbreviated number. -/
def keptDigits : Nat := 12

/-- A number text of many digits is cut down to its ends and the number of its digits. -/
def abbreviate (text : String) : String :=
  let sign := text.toList.takeWhile (· == '-')
  let digits := text.toList.dropWhile (· == '-')
  if digits.length ≤ 2 * keptDigits then text
  else
    String.ofList (sign ++ digits.take keptDigits) ++ "..." ++
      String.ofList (digits.drop (digits.length - keptDigits)) ++
      " (" ++ toString digits.length ++ " digits)"

end Scriptlet.Decimal
