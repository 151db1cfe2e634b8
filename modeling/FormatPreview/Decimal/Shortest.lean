import FormatPreview.Decimal.Binary

/-!
The shortest decimal that reads back as a given magnitude. The reals that round to a magnitude form
an interval, which holds its ends when the mantissa is even. The grids of one, two, three and more
digits are tried in turn, each at the two points next to the value; the first grid with a point in
the interval wins, and of two such points the nearer one, a tie going to the even digit.
-/
namespace FormatPreview.Decimal

/-- The number `digits * 10 ^ exponent`. -/
structure Scientific where
  digits : Nat
  exponent : Int
deriving DecidableEq

/-- `2 ^ two * 10 ^ ten` as a ratio. -/
private def power (two ten : Int) : Nat × Nat :=
  (Nat.pow 2 two.toNat * Nat.pow 10 ten.toNat, Nat.pow 2 (-two).toNat * Nat.pow 10 (-ten).toNat)

/-- The interval of a magnitude in quarters of its unit: lower end, value, upper end. The unit below
a power of two is half as large. -/
private def quarters (f : Format) (m : Magnitude) : Nat × Nat × Nat :=
  let value := 4 * m.mantissa
  let below := if m.mantissa = Nat.pow 2 (f.precision - 1) ∧ f.least < m.exponent then 1 else 2
  (value - below, value, value + 2)

/-- The points of the grid of step `10 ^ ten` next to the value, at most one, if in the interval. -/
private def gridPoint? (f : Format) (m : Magnitude) (ten : Int) : Option Nat :=
  let (low, value, high) := quarters f m
  let (n, d) := power (m.exponent - 2) (-ten)
  let closed := m.mantissa % 2 = 0
  let inside (p : Nat) : Bool :=
    if closed then low * n ≤ p * d && p * d ≤ high * n else low * n < p * d && p * d < high * n
  let under := value * n / d
  let above := under + 1
  let rest := 2 * (value * n % d)
  match inside under && 0 < under, inside above with
  | true, true =>
    if rest < d then some under
    else if d < rest then some above
    else some (under + under % 2)
  | true, false => some under
  | false, true => some above
  | false, false => none

/-- The exponent of ten of the leading digit, found by counting the digits of the integer part or
the zeros after the point. -/
private def leading (m : Magnitude) : Int :=
  let (n, d) := m.ratio
  if d ≤ n then (Nat.toDigits 10 (n / d)).length - 1
  else
    let guess : Int := (Nat.toDigits 10 (d / n)).length
    -- `10 ^ (guess - 1) ≤ d / n`, so the value is at most `10 ^ (1 - guess)`
    if d ≤ n * Nat.pow 10 (guess - 1).toNat then 1 - guess else -guess

private def search (f : Format) (m : Magnitude) (ten : Int) : Nat → Scientific
  | 0 => ⟨0, 0⟩
  | tries + 1 =>
    match gridPoint? f m ten with
    | some p => ⟨p, ten⟩
    | none => search f m (ten - 1) tries

/-- Digits that end in no zero. -/
private def strip (s : Scientific) : Nat → Scientific
  | 0 => s
  | tries + 1 =>
    if s.digits ≠ 0 ∧ s.digits % 10 = 0 then strip ⟨s.digits / 10, s.exponent + 1⟩ tries else s

/-- The shortest decimal of a magnitude, seventeen digits at most. -/
def shortest (f : Format) (m : Magnitude) : Scientific :=
  if m.mantissa = 0 then ⟨0, 0⟩ else strip (search f m (leading m) 20) 20

private def zeros (n : Nat) : String := String.ofList (List.replicate n '0')

/-- A decimal without an exponent, and without a point where it is whole. -/
def Scientific.positional (s : Scientific) : String :=
  let digits := toString s.digits
  if 0 ≤ s.exponent then if s.digits = 0 then digits else digits ++ zeros s.exponent.toNat
  else
    let places := (-s.exponent).toNat
    if places < digits.length then
      String.ofList (digits.toList.take (digits.length - places)) ++ "." ++
        String.ofList (digits.toList.drop (digits.length - places))
    else "0." ++ zeros (places - digits.length) ++ digits

/-- A decimal with `.0` where it is whole. -/
def Scientific.pointed (s : Scientific) : String :=
  if 0 ≤ s.exponent then s.positional ++ ".0" else s.positional

/-- The mixed notation: positional with a point while the leading digit stands at most sixteen
places before and five places behind the point, with an exponent otherwise. -/
def Scientific.mixed (s : Scientific) : String :=
  let digits := toString s.digits
  let point : Int := digits.length + s.exponent
  if -5 < point ∧ point ≤ 16 then s.pointed
  else
    let head := String.ofList (digits.toList.take 1)
    let tail := String.ofList (digits.toList.drop 1)
    (if tail.isEmpty then head else head ++ "." ++ tail) ++ "e" ++ toString (point - 1)

end FormatPreview.Decimal
