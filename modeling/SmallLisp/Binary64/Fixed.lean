import SmallLisp.Binary64.Basic

/-!
# Fixed-point reals below the quantum

A real number held as a whole number of units, each of them `2 ^ -256` of a quantum.  All finite
binary64 numbers are exact here, and every operation rounds down to a unit, so what a formula loses
is an absolute error far below the quantum: a difference of two nearly equal numbers keeps as many
good digits as a binary64 number can show.  `Fixed.round` then rounds to the format, once.

The transcendental functions are power series.  In each of them a term is a fraction of small whole
numbers times the argument times the term before it, so one definition, `nested`, sums them all.
`seriesLength` terms are enough where the terms shrink ninefold: `9 ^ 440` is above `2 ^ 1390`.
-/

namespace SmallLisp

/-- The number of units in a quantum. -/
def unitsPerQuantum : Nat := Nat.pow 2 256

/-- The number of units in one. -/
def unitsPerOne : Nat := unitsPerQuantum * quantaPerOne

/-- A real number in fixed point. -/
structure Fixed where
  /-- The number in units. -/
  units : Int
deriving DecidableEq

namespace Fixed

/-! ### Arithmetic -/

/-- A natural number. -/
def ofNat (n : Nat) : Fixed := ⟨n * unitsPerOne⟩

instance (n : Nat) : OfNat Fixed n := ⟨ofNat n⟩

/-- A fraction. -/
def ofFraction (num : Int) (den : Nat) : Fixed := ⟨num * unitsPerOne / den⟩

/-- A number of quanta. -/
def ofQuanta (z : Int) : Fixed := ⟨z * unitsPerQuantum⟩

instance : Neg Fixed := ⟨fun x => ⟨-x.units⟩⟩
instance : Add Fixed := ⟨fun x y => ⟨x.units + y.units⟩⟩
instance : Sub Fixed := ⟨fun x y => ⟨x.units - y.units⟩⟩
instance : Mul Fixed := ⟨fun x y => ⟨x.units * y.units / unitsPerOne⟩⟩
instance : Div Fixed := ⟨fun x y => ⟨x.units * unitsPerOne / y.units⟩⟩
instance : LT Fixed := ⟨fun x y => x.units < y.units⟩
instance : LE Fixed := ⟨fun x y => x.units ≤ y.units⟩

instance (x y : Fixed) : Decidable (x < y) := inferInstanceAs (Decidable (x.units < y.units))
instance (x y : Fixed) : Decidable (x ≤ y) := inferInstanceAs (Decidable (x.units ≤ y.units))

/-- The number times the fraction of two natural numbers. -/
def scaleBy (x : Fixed) (num den : Nat) : Fixed := ⟨x.units * num / den⟩

/-- The number times a power of two. -/
def shift (x : Fixed) (e : Int) : Fixed := ⟨x.units * Int.pow 2 e.toNat / Int.pow 2 (-e).toNat⟩

/-- The square root of a number that is not negative. -/
def sqrt (x : Fixed) : Fixed := ⟨Binary64.natSqrt (x.units.toNat * unitsPerOne)⟩

/-! ### Power series -/

/-- The sum `1 + r k z (1 + r (k+1) z (1 + …))` of `n` factors, where `r` gives each ratio of
neighbouring coefficients as numerator and denominator. -/
def nested (r : Nat → Nat × Nat) (z : Fixed) (k : Nat) : Nat → Fixed
  | 0 => 1
  | n + 1 => 1 + (z * nested r z (k + 1) n).scaleBy (r k).1 (r k).2

/-- The number of terms that are summed of a series whose terms shrink ninefold. -/
def seriesLength : Nat := 440

/-- The odd powers over their exponents, `t + t z / 3 + t z² / 5 + …`. -/
def oddPowers (t z : Fixed) : Fixed :=
  t * nested (fun k => (2 * k + 1, 2 * k + 3)) z 0 seriesLength

/-- The inverse hyperbolic tangent of a number of size at most a third. -/
def artanh (t : Fixed) : Fixed := oddPowers t (t * t)

/-- The inverse tangent of a number of size at most a third. -/
def arctan (t : Fixed) : Fixed := oddPowers t (-(t * t))

/-- The ratio of a circle's circumference to its diameter, from
`π / 4 = 4 arctan (1 / 5) - arctan (1 / 239)`. -/
def pi : Fixed := 16 * arctan (ofFraction 1 5) - 4 * arctan (ofFraction 1 239)

/-- The logarithm of two. -/
def logTwo : Fixed := 2 * artanh (ofFraction 1 3)

/-- The logarithm of a positive number: it is a power of two times some `m` from one up to two, and
`log m = 2 artanh ((m - 1) / (m + 1))`. -/
def log (x : Fixed) : Fixed :=
  let e : Int := (x.units.toNat.log2 : Int) - unitsPerOne.log2
  let m := x.shift (-e)
  ⟨e * logTwo.units⟩ + 2 * artanh ((m - 1) / (m + 1))

/-- The exponential.  The whole multiples of `logTwo` in `x` give a power of two. -/
def exp (x : Fixed) : Fixed :=
  let e := x.units / logTwo.units
  (nested (fun k => (1, k + 1)) ⟨x.units - e * logTwo.units⟩ 0 seriesLength).shift e

/-- The sine of `π r`, for an `r` of size at most a half. -/
def sinPi (r : Fixed) : Fixed :=
  let t := pi * r
  t * nested (fun k => (1, (2 * k + 2) * (2 * k + 3))) (-(t * t)) 0 seriesLength

/-! ### Rounding -/

/-- The binary64 number of the given sign nearest to the size of `x`. -/
def roundSize (negative : Bool) (x : Fixed) : Binary64 :=
  Binary64.round negative x.units.natAbs unitsPerQuantum

/-- The binary64 number nearest to `x`. -/
def round (x : Fixed) : Binary64 := x.roundSize (x.units < 0)

/-- The binary64 number of the given sign nearest to the size of `e ^ x`.  A negative exponent is
that of a reciprocal, so that a small result has as many good digits as a large one. -/
def roundExp (negative : Bool) (x : Fixed) : Binary64 :=
  if 0 ≤ x then x.exp.roundSize negative
  else Binary64.round negative (unitsPerOne * quantaPerOne) (-x).exp.units.natAbs

end Fixed

end SmallLisp
