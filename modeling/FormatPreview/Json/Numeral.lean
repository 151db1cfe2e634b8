import FormatPreview.Decimal.Shortest

/-!
Numbers of JSON. A numeral is a number as written: sign, digits, fraction and exponent. Its value is
an integer while it is one and fits 64 bits, and a double otherwise.

The digits of a numeral are gathered into a 64-bit number. Digits of the whole part that no longer
fit count as powers of ten, those of the fraction are left out. One multiplication or division by a
power of ten then gives the double, so a long numeral may miss its nearest double by a little.
-/
namespace FormatPreview.Json

open Decimal

inductive Number where
  | integer (value : Int)
  | float (negative : Bool) (magnitude : Magnitude)
deriving DecidableEq

/-- The text of a number: digits for an integer, the shortest decimal for a double. -/
def Number.text : Number → String
  | .integer value => toString value
  | .float negative magnitude =>
    (if negative then "-" else "") ++ (shortest .double magnitude).mixed

structure Numeral where
  negative : Bool
  whole : List Char
  fraction : List Char
  exponent : Option Int
deriving DecidableEq

def isDigit (c : Char) : Bool := '0' ≤ c && c ≤ '9'

def digitValue (c : Char) : Nat := c.toNat - '0'.toNat

def ofDigits (digits : List Char) : Nat := digits.foldl (fun n c => n * 10 + digitValue c) 0

namespace Numeral

/-- The exponent part, after its letter: an optional sign and at least one digit, to the end. -/
def exponent? (cs : List Char) : Option Int :=
  let (negative, digits) := match cs with
    | '-' :: rest => (true, rest)
    | '+' :: rest => (false, rest)
    | rest => (false, rest)
  if digits ≠ [] ∧ digits.all isDigit then
    some (if negative then -(ofDigits digits) else ofDigits digits)
  else none

/-- What follows the fraction, if anything does. -/
def finish (negative : Bool) (whole fraction : List Char) : List Char → Option Numeral
  | [] => some ⟨negative, whole, fraction, none⟩
  | c :: rest =>
    if c = 'e' ∨ c = 'E' then
      (exponent? rest).map fun exponent => ⟨negative, whole, fraction, some exponent⟩
    else none

/-- A numeral from exactly the characters of it: no zero before other digits of the whole part, and
at least one digit in each part. -/
def ofChars? (cs : List Char) : Option Numeral :=
  let (negative, cs) := match cs with
    | '-' :: rest => (true, rest)
    | rest => (false, rest)
  let whole := cs.takeWhile isDigit
  let rest := cs.dropWhile isDigit
  if whole = [] ∨ (whole.head? = some '0' ∧ whole ≠ ['0']) then none
  else match rest with
    | '.' :: rest =>
      let fraction := rest.takeWhile isDigit
      if fraction = [] then none
      else finish negative whole fraction (rest.dropWhile isDigit)
    | rest => finish negative whole [] rest

/-- Digits appended to a number while it stays below 2 ^ 64, and the digits that were not. -/
def gather (n : Nat) : List Char → Nat × List Char
  | [] => (n, [])
  | c :: rest =>
    let next := n * 10 + digitValue c
    if next < Nat.pow 2 64 then gather next rest else (n, c :: rest)

private def powerOfTen (n : Nat) : Magnitude := Format.double.ofNat (Nat.pow 10 n)

/-- Division by a power of ten, in steps of at most 10 ^ 308. -/
private def divideByTens (m : Magnitude) (n : Nat) : Magnitude :=
  if m.mantissa = 0 then m
  else if n ≤ 308 then Format.double.div m (powerOfTen n)
  else divideByTens (Format.double.div m (powerOfTen 308)) (n - 308)
termination_by n

/-- `significand * 10 ^ exponent` as a double, unless it is out of range. -/
def double? (significand : Nat) (exponent : Int) : Option Magnitude :=
  let m := Format.double.ofNat significand
  if exponent < 0 then some (divideByTens m (-exponent).toNat)
  else if m.mantissa = 0 then some m
  else if exponent ≤ 308 then
    let product := Format.double.mul m (powerOfTen exponent.toNat)
    if Format.double.finite product then some product else none
  else none

/-- The value of a numeral. There is none past the range of a double. Minus zero is a double. -/
def value? (n : Numeral) : Option Number :=
  let (significand, left) := gather 0 n.whole
  if n.fraction = [] ∧ n.exponent = none ∧ left = [] ∧
      (n.negative = false ∨ (0 < significand ∧ significand ≤ Nat.pow 2 63)) then
    some (.integer (if n.negative then -significand else significand))
  else
    let (gathered, dropped) := gather significand n.fraction
    let places : Int := (left.length : Int) - (n.fraction.length - dropped.length : Nat)
    (double? gathered (places + n.exponent.getD 0)).map (.float n.negative)

end Numeral

end FormatPreview.Json
