import SmallLisp.Binary64.Basic

/-!
# Binary64 numbers as machine words

The interchange format of sixty-four bits: a sign, eleven bits of exponent and fifty-two of
fraction.  The words of positive finite numbers count them in order, so `toWord` needs no case
for the numbers below the normal range.  The words connect `Binary64` to the machine's floating
point unit, which computes the elementary functions.
-/

namespace SmallLisp.Binary64

/-- The bits of a magnitude: the place of its last bit, and the significand at that place. -/
def magnitudeBits (m : Magnitude) : Nat :=
  let shift := m.quanta.log2 - 52
  shift * 0x10000000000000 + m.quanta / Nat.pow 2 shift

/-- The bit of a sign. -/
def signBit (negative : Bool) : UInt64 := if negative then 0x8000000000000000 else 0

/-- The word of a number. -/
def toWord : Binary64 → UInt64
  | nan => 0x7FF8000000000000
  | infinity s => signBit s + 0x7FF0000000000000
  | finite s m => signBit s + (magnitudeBits m).toUInt64

/-- A normal significand at one of the places of the format is in range. -/
theorem significand_lt_limit {fraction exponent : Nat} (hf : fraction < 0x10000000000000)
    (he : exponent < 2047) :
    (0x10000000000000 + fraction) * Nat.pow 2 (exponent - 1) < quantaLimit := by
  have h1 : (0x10000000000000 + fraction) * 2 ^ (exponent - 1) < 2 ^ 53 * 2 ^ (exponent - 1) :=
    (Nat.mul_lt_mul_right (Nat.two_pow_pos _)).2 (by omega)
  refine Nat.lt_of_lt_of_le h1 ?_
  rw [← Nat.pow_add]
  exact two_pow_le_quantaLimit (by omega)

/-- A fraction below the normal range is in range. -/
theorem fraction_lt_limit {fraction : Nat} (hf : fraction < 0x10000000000000) :
    fraction * Nat.pow 2 0 < quantaLimit := by
  rw [Nat.pow_eq, Nat.pow_zero, Nat.mul_one]
  exact Nat.lt_of_lt_of_le hf (two_pow_le_quantaLimit (n := 52) (by decide))

/-- The number of a word. -/
def ofWord (w : UInt64) : Binary64 :=
  let bits := w.toNat
  let negative := decide (0x8000000000000000 ≤ bits)
  let exponent := bits / 0x10000000000000 % 2048
  let fraction := bits % 0x10000000000000
  have hf : fraction < 0x10000000000000 := Nat.mod_lt _ (by decide)
  if he : exponent < 2047 then
    if exponent = 0 then
      finite negative ⟨fraction * Nat.pow 2 0,
        representable_mul_two_pow (Nat.le_trans (Nat.le_of_lt hf) (by decide))
          (fraction_lt_limit hf)⟩
    else
      finite negative ⟨(0x10000000000000 + fraction) * Nat.pow 2 (exponent - 1),
        representable_mul_two_pow (by omega) (significand_lt_limit hf he)⟩
  else if fraction = 0 then infinity negative
  else nan

/-- The number as a machine float. -/
def toFloat (x : Binary64) : Float := Float.ofBits x.toWord

/-- The number of a machine float. -/
def ofFloat (x : Float) : Binary64 := ofWord x.toBits

/-- A function of the machine on these numbers. -/
def lift (f : Float → Float) (x : Binary64) : Binary64 := ofFloat (f x.toFloat)

/-- A function of the machine with two arguments on these numbers. -/
def lift₂ (f : Float → Float → Float) (x y : Binary64) : Binary64 :=
  ofFloat (f x.toFloat y.toFloat)

end SmallLisp.Binary64
