/-!
Floating-point magnitudes in exact arithmetic. A format has a precision and a least exponent; a
magnitude is a mantissa times a power of two. `round` takes a ratio to the nearest magnitude of the
format, a tie to the even mantissa, and always in the same representation: the mantissa has full
precision unless the exponent is the least one.
-/
namespace FormatPreview.Decimal

/-- A binary format: bits of the mantissa, and the exponents of its unit. -/
structure Format where
  precision : Nat
  least : Int
  greatest : Int

def Format.double : Format := ⟨53, -1074, 971⟩

def Format.single : Format := ⟨24, -149, 104⟩

/-- The number `mantissa * 2 ^ exponent`. -/
structure Magnitude where
  mantissa : Nat
  exponent : Int
deriving DecidableEq

/-- `numerator / denominator` to the nearest natural number, a tie to the even one. -/
def roundDiv (numerator denominator : Nat) : Nat :=
  let q := numerator / denominator
  let twice := 2 * (numerator % denominator)
  if twice < denominator then q
  else if denominator < twice then q + 1
  else q + q % 2

/-- A ratio scaled by a power of two, still as a ratio. -/
def scale (numerator denominator : Nat) (exponent : Int) : Nat × Nat :=
  if exponent ≤ 0 then (numerator * Nat.pow 2 (-exponent).toNat, denominator)
  else (numerator, denominator * Nat.pow 2 exponent.toNat)

/-- The exponent of the power of two at or next below a positive ratio. -/
def log2Ratio (numerator denominator : Nat) : Int :=
  let guess : Int := (numerator.log2 : Int) - denominator.log2
  let (n, d) := scale numerator denominator guess
  if n < d then guess - 1 else guess

def Format.round (f : Format) (numerator denominator : Nat) : Magnitude :=
  if numerator = 0 then ⟨0, f.least⟩
  else
    let exponent := max f.least (log2Ratio numerator denominator - (f.precision - 1))
    let (n, d) := scale numerator denominator exponent
    let mantissa := roundDiv n d
    if mantissa = Nat.pow 2 f.precision then ⟨Nat.pow 2 (f.precision - 1), exponent + 1⟩
    else ⟨mantissa, exponent⟩

def Magnitude.ratio (m : Magnitude) : Nat × Nat := scale m.mantissa 1 (-m.exponent)

def Format.ofNat (f : Format) (n : Nat) : Magnitude := f.round n 1

def Format.add (f : Format) (a b : Magnitude) : Magnitude :=
  let (n, d) := a.ratio
  let (n', d') := b.ratio
  f.round (n * d' + n' * d) (d * d')

def Format.mul (f : Format) (a b : Magnitude) : Magnitude :=
  let (n, d) := a.ratio
  let (n', d') := b.ratio
  f.round (n * n') (d * d')

def Format.div (f : Format) (a b : Magnitude) : Magnitude :=
  let (n, d) := a.ratio
  let (n', d') := b.ratio
  f.round (n * d') (d * n')

/-- Whether a rounded magnitude lies in the finite range of its format. -/
def Format.finite (f : Format) (m : Magnitude) : Bool := m.exponent ≤ f.greatest

end FormatPreview.Decimal
