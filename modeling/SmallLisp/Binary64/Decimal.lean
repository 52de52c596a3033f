import SmallLisp.Binary64.Basic

/-!
# Decimal numbers and binary64

`Binary64.ofDecimal` takes a decimal number to the nearest binary64 number.  The other way,
`Magnitude.shortest` finds the decimal number with the fewest digits that `ofDecimal` takes back,
and of several the nearest.  It tries one digit, two digits, and so on up to seventeen, each on the
grid of the multiples of a power of ten; there only the two neighbours of the number can be
nearest.  Should no grid have a hit, the exact decimal expansion is returned, so that in every case
the answer reads back.
-/

namespace SmallLisp

/-- The decimal number `coefficient * 10 ^ exponent`. -/
structure Decimal where
  coefficient : Nat
  exponent : Int
deriving DecidableEq, Repr

/-- How many decimal digits a number is written with. -/
def decimalLength (n : Nat) : Nat := (Nat.toDigits 10 n).length

namespace Binary64

/-- The number nearest to a decimal number.  A decimal number from `10 ^ 310` on is out of range,
and one below `10 ^ -330` is nearest to zero, so neither needs its power of ten. -/
def ofDecimal (negative : Bool) (d : Decimal) : Binary64 :=
  let top := (decimalLength d.coefficient : Int) + d.exponent
  if d.coefficient = 0 ∨ top < -330 then zero negative
  else if 310 < top then infinity negative
  else
    round negative (d.coefficient * Nat.pow 10 d.exponent.toNat * quantaPerOne)
      (Nat.pow 10 (-d.exponent).toNat)

end Binary64

namespace Magnitude

/-- The exponent of the leading decimal digit of a magnitude that is not zero.  The magnitude
times `10 ^ 400` is above one, so its whole part shows the place of that digit. -/
def decimalExponent (m : Magnitude) : Int :=
  (decimalLength (m.quanta * Nat.pow 10 400 / quantaPerOne) : Int) - 401

/-- The magnitude in units of `10 ^ e`, as a fraction. -/
def inUnits (m : Magnitude) (e : Int) : Nat × Nat :=
  (m.quanta * Nat.pow 10 (-e).toNat, quantaPerOne * Nat.pow 10 e.toNat)

/-- Whether a decimal number is nearest to this magnitude of all. -/
def readsBack (m : Magnitude) (d : Decimal) : Bool :=
  Binary64.ofDecimal false d = .finite false m

/-- The multiple of `10 ^ e` that reads back and is nearest to the magnitude; of two that are
equally near it is the larger. -/
def onGrid? (m : Magnitude) (e : Int) : Option Decimal :=
  let (num, den) := m.inUnits e
  let below : Decimal := ⟨num / den, e⟩
  let above : Decimal := ⟨num / den + 1, e⟩
  let nearerBelow := decide (2 * (num % den) < den)
  if m.readsBack below && (nearerBelow || !m.readsBack above) then some below
  else if m.readsBack above then some above
  else none

/-- The magnitude in full, with all its digits. -/
def exactDecimal (m : Magnitude) : Decimal := ⟨m.quanta * Nat.pow 5 1074, -1074⟩

/-- The decimal number with the fewest digits that reads back, and of those the nearest. -/
def shortest (m : Magnitude) : Decimal :=
  let leading := m.decimalExponent
  ((List.range 17).findSome? fun (n : Nat) => m.onGrid? (leading - n)).getD m.exactDecimal

end Magnitude

end SmallLisp
