/-!
# Magnitudes of binary64 numbers

A finite binary64 number is a whole number of quanta, a quantum being `2 ^ -1074`, the least
positive number of the format.  Not every whole number of quanta is one: there are fifty-three
significant bits, so a count above `2 ^ 53` is a multiple of a power of two (`Representable`),
and the largest count is below `2 ^ 2098`.

All rounding of the format is one function, `Magnitude.round?`, which takes a fraction of two
natural numbers to the nearest magnitude, ties to even, and fails beyond the range.
`representable_mul_two_pow` is why what it builds is representable.
-/

namespace SmallLisp

/-- The natural number nearest to `num / den`; halfway between two it is the even one. -/
def roundDiv (num den : Nat) : Nat :=
  let q := num / den
  let r := num % den
  if 2 * r < den then q else if den < 2 * r then q + 1 else q + q % 2

theorem roundDiv_le_succ (num den : Nat) : roundDiv num den ≤ num / den + 1 := by
  simp only [roundDiv]
  split
  · omega
  · split <;> omega

/-- The number of quanta in one. -/
def quantaPerOne : Nat := Nat.pow 2 1074

/-- All magnitudes are below this number of quanta. -/
def quantaLimit : Nat := Nat.pow 2 2098

theorem quantaLimit_pos : 0 < quantaLimit := by
  unfold quantaLimit
  generalize 2098 = k
  exact Nat.two_pow_pos k

theorem two_pow_le_quantaLimit {n : Nat} (h : n ≤ 2098) : Nat.pow 2 n ≤ quantaLimit := by
  unfold quantaLimit
  generalize 2098 = k at h
  exact Nat.pow_le_pow_right Nat.two_pos h

/-- The distance between neighbouring magnitudes around `k` quanta. -/
def spacing (k : Nat) : Nat := Nat.pow 2 (k.log2 - 52)

/-- A number of quanta that has at most fifty-three significant bits and is in range. -/
def Representable (k : Nat) : Prop :=
  k < quantaLimit ∧ spacing k ∣ k

instance (k : Nat) : Decidable (Representable k) :=
  inferInstanceAs (Decidable (_ ∧ _))

/-- Fifty-three significant bits at any place that is in range are representable. -/
theorem representable_mul_two_pow {r j : Nat} (hr : r ≤ 0x20000000000000)
    (hlt : r * Nat.pow 2 j < quantaLimit) : Representable (r * Nat.pow 2 j) := by
  refine ⟨hlt, ?_⟩
  show 2 ^ ((r * 2 ^ j).log2 - 52) ∣ r * 2 ^ j
  replace hr : r ≤ 2 ^ 53 := hr
  rcases Nat.lt_or_eq_of_le hr with h | h
  · have hk : (r * 2 ^ j).log2 - 52 ≤ j := by
      rcases Nat.eq_zero_or_pos (r * 2 ^ j) with h0 | h0
      · rw [h0]; simp
      · have : (r * 2 ^ j).log2 < 53 + j := by
          rw [Nat.log2_lt (by omega), Nat.pow_add]
          exact (Nat.mul_lt_mul_right (Nat.two_pow_pos j)).2 h
        omega
    exact Nat.dvd_trans (Nat.pow_dvd_pow 2 hk) (Nat.dvd_mul_left ..)
  · rw [h, ← Nat.pow_add, Nat.log2_two_pow]
    exact Nat.pow_dvd_pow 2 (by omega)

/-- The size of a finite binary64 number, a whole number of quanta. -/
structure Magnitude where
  /-- The size in quanta. -/
  quanta : Nat
  /-- The size has at most fifty-three significant bits and is in range. -/
  representable : Representable quanta
deriving DecidableEq

namespace Magnitude

/-- The magnitude zero. -/
def zero : Magnitude := ⟨0, quantaLimit_pos, Nat.dvd_zero _⟩

/-- One more than the floor of a quotient has at most fifty-three bits at its own spacing. -/
theorem roundDiv_spacing_le (num den : Nat) :
    roundDiv num (den * spacing (num / den)) ≤ 0x20000000000000 := by
  have h := roundDiv_le_succ num (den * spacing (num / den))
  have hf : num / (den * spacing (num / den)) < 2 ^ 53 := by
    rw [← Nat.div_div_eq_div_mul, spacing, Nat.pow_eq, Nat.div_lt_iff_lt_mul (Nat.two_pow_pos _),
      ← Nat.pow_add]
    exact Nat.lt_of_lt_of_le Nat.lt_log2_self (Nat.pow_le_pow_right (by decide) (by omega))
  omega

/-- The magnitude nearest to `num / den` quanta, halfway cases to the even significand; `none`
when that is out of range. -/
def round? (num den : Nat) : Option Magnitude :=
  let unit := spacing (num / den)
  let k := roundDiv num (den * unit) * unit
  if h : k < quantaLimit then
    some ⟨k, representable_mul_two_pow (roundDiv_spacing_le num den) h⟩
  else
    none

end Magnitude

end SmallLisp
