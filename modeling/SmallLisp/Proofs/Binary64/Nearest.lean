import Mathlib.Algebra.Order.Ring.Abs
import Mathlib.Algebra.Ring.Parity
import SmallLisp.Proofs.Binary64.Line
import SmallLisp.Proofs.Binary64.Rounding

/-!
# Rounding goes to the nearest number

A rounded quotient is off by half the divisor at most, and other multiples of the divisor are no
nearer (`roundDiv_nearest`).  Magnitudes are rounded to the grid of the binade that they fall in.
Whatever is representable lies on that grid or below the binade, and there the bottom of the binade
is nearer still, so no magnitude is nearer than the rounded one (`Magnitude.round?_nearest`).  Two
are equally near only if the rounded one has an even significand.

For integers this gives `Binary64.isNearest_ofInt`.  As no number lies between a number and the one
nearest to it, rounding keeps the order (`IsNearest.le_of_le`, `IsNearest.le_of_ge`).
-/

namespace SmallLisp

/-! ### Quotients -/

/-- A rounded quotient is off by half the divisor at most, and by that much only if it is even. -/
theorem two_mul_abs_roundDiv_le (num : ℕ) {den : ℕ} (hden : 0 < den) :
    2 * |(roundDiv num den : ℤ) * den - num| ≤ den ∧
      (2 * |(roundDiv num den : ℤ) * den - num| = den → Even (roundDiv num den)) := by
  have hnum : (num : ℤ) = (num / den : ℕ) * den + (num % den : ℕ) := by
    exact_mod_cast (Nat.div_add_mod' num den).symm
  have hrem : num % den < den := Nat.mod_lt _ hden
  have hnext : ((num / den + 1 : ℕ) : ℤ) * den = (num / den : ℕ) * den + den := by
    push_cast
    ring
  rw [Int.abs_eq_natAbs, Nat.even_iff]
  simp only [roundDiv]
  split_ifs with hbelow habove
  · omega
  · omega
  · rcases Nat.mod_two_eq_zero_or_one (num / den) with heven | hodd
    · rw [heven, Nat.add_zero]
      omega
    · rw [hodd]
      omega

/-- No multiple of the divisor is nearer than the rounded quotient, and if another is as near, the
rounded quotient is even. -/
theorem roundDiv_nearest (num : ℕ) {den : ℕ} (hden : 0 < den) {k : ℤ}
    (hk : k ≠ roundDiv num den) :
    |(roundDiv num den : ℤ) * den - num| ≤ |k * den - num| ∧
      (|k * den - num| = |(roundDiv num den : ℤ) * den - num| → Even (roundDiv num den)) := by
  obtain ⟨hle, heven⟩ := two_mul_abs_roundDiv_le num hden
  generalize (roundDiv num den : ℤ) = r at *
  -- Other multiples are at least the divisor away from this one.
  have hgap : (den : ℤ) ≤ |k * den - r * den| := by
    rw [← sub_mul, abs_mul, Nat.abs_cast]
    have hone : 1 ≤ |k - r| := Int.one_le_abs (sub_ne_zero.2 hk)
    exact le_mul_of_one_le_left (Int.natCast_nonneg den) hone
  have htriangle : |k * den - r * den| ≤ |k * den - num| + |r * den - num| := by
    rw [abs_sub_comm (r * den)]
    exact abs_sub_le ..
  refine ⟨by omega, fun htie => heven (by omega)⟩

/-- The rounded quotient is nearer than what lies below some multiple of the divisor that does not
go beyond `num`. -/
theorem roundDiv_nearer (num : ℕ) {den : ℕ} (hden : 0 < den) {k a : ℤ} (hk : k * den ≤ num)
    (ha : a < k * den) : |(roundDiv num den : ℤ) * den - num| < |a - num| := by
  have hle : |(roundDiv num den : ℤ) * den - num| ≤ |k * den - num| := by
    by_cases heq : k = roundDiv num den
    · rw [heq]
    · exact (roundDiv_nearest num hden heq).1
  have hlt : |k * den - num| < |a - num| := by
    rw [abs_of_nonpos (by omega), abs_of_nonpos (by omega)]
    omega
  exact hle.trans_lt hlt

theorem div_le_roundDiv (num den : ℕ) : num / den ≤ roundDiv num den := by
  simp only [roundDiv]
  split_ifs <;> omega

/-! ### Magnitudes -/

/-- Whatever is representable lies on the grid around `f`, or below all of the binade of `f`. -/
theorem Representable.dvd_or_lt {k : ℕ} (hk : Representable k) (f : ℕ) :
    spacing f ∣ k ∨ k < 2 ^ 52 * spacing f ∧ 2 ^ 52 * spacing f ≤ f := by
  by_cases hlog : f.log2 - 52 ≤ k.log2 - 52
  · exact Or.inl ((Nat.pow_dvd_pow 2 hlog).trans hk.2)
  · have hbinade : 2 ^ 52 * spacing f = 2 ^ f.log2 := by
      rw [spacing, Nat.pow_eq, ← Nat.pow_add]
      congr 1
      omega
    have hf : f ≠ 0 := by
      rintro rfl
      simp at hlog
    rw [hbinade]
    refine Or.inr ⟨?_, Nat.log2_self_le hf⟩
    exact Nat.lt_of_lt_of_le Nat.lt_log2_self (Nat.pow_le_pow_right (by decide) (by omega))

/-- Fifty-three bits at a place are spaced by that place, unless they could be moved to a lower
one. -/
theorem spacing_mul_two_pow {r j : ℕ} (hr : r < 2 ^ 53) (hj : j ≠ 0 → 2 ^ 52 ≤ r) :
    spacing (r * 2 ^ j) = 2 ^ j := by
  rw [spacing, Nat.pow_eq]
  congr 1
  rcases eq_or_ne j 0 with rfl | hj0
  · rcases eq_or_ne r 0 with rfl | hr0
    · rfl
    · have := (Nat.log2_lt hr0).2 hr
      rw [Nat.pow_zero, Nat.mul_one]
      omega
  · have hpos := Nat.two_pow_pos j
    have hr0 : r * 2 ^ j ≠ 0 := Nat.mul_ne_zero (by have := hj hj0; omega) hpos.ne'
    have hlog : (r * 2 ^ j).log2 = 52 + j := by
      rw [Nat.log2_eq_iff hr0, Nat.pow_add, Nat.add_right_comm, Nat.pow_add]
      exact ⟨Nat.mul_le_mul_right _ (hj hj0), (Nat.mul_lt_mul_right hpos).2 hr⟩
    omega

namespace Magnitude

/-- The bits of a magnitude, as a whole number. -/
def significand (m : Magnitude) : ℕ := m.quanta / spacing m.quanta

variable {num den : ℕ} {m : Magnitude}

theorem quanta_of_round? (h : round? num den = some m) :
    m.quanta = roundDiv num (den * spacing (num / den)) * spacing (num / den) := by
  unfold round? at h
  dsimp only at h
  split_ifs at h
  rw [← Option.some.inj h]

/-- A number of quanta that is not above half the range rounds to a magnitude. -/
theorem exists_round? (h : 2 * (num / den) < quantaLimit) : ∃ m, round? num den = some m := by
  have hlimit : 1 < quantaLimit := two_pow_le_quantaLimit (n := 1) (by decide)
  have hle : roundDiv num (den * spacing (num / den)) * spacing (num / den)
      ≤ num / den + spacing (num / den) := by
    calc roundDiv num (den * spacing (num / den)) * spacing (num / den)
        ≤ (num / den / spacing (num / den) + 1) * spacing (num / den) := by
          refine Nat.mul_le_mul_right _ ?_
          rw [Nat.div_div_eq_div_mul]
          exact roundDiv_le_succ ..
      _ ≤ num / den + spacing (num / den) := by
          rw [Nat.add_mul, Nat.one_mul]
          exact Nat.add_le_add_right (Nat.div_mul_le_self ..) _
  have hspacing : spacing (num / den) ≤ max 1 (num / den) := by
    rcases eq_or_ne (num / den) 0 with hzero | hne
    · rw [hzero]
      decide
    · refine Nat.le_trans ?_ ((Nat.log2_self_le hne).trans (Nat.le_max_right ..))
      exact Nat.pow_le_pow_right (by decide) (Nat.sub_le ..)
  unfold round?
  rw [dif_pos (by omega)]
  exact ⟨_, rfl⟩

/-- What is rounded to an even number of units has an even significand. -/
theorem even_significand (h : round? num den = some m)
    (heven : Even (roundDiv num (den * spacing (num / den)))) : Even m.significand := by
  have hle : roundDiv num (den * spacing (num / den)) ≤ 2 ^ 53 := roundDiv_spacing_le num den
  have hnormal : (num / den).log2 - 52 ≠ 0 → 2 ^ 52 ≤ roundDiv num (den * spacing (num / den)) := by
    intro hlog
    have hne : num / den ≠ 0 := by
      intro hzero
      rw [hzero] at hlog
      exact hlog rfl
    refine Nat.le_trans ?_ (div_le_roundDiv ..)
    rw [← Nat.div_div_eq_div_mul, Nat.le_div_iff_mul_le (spacing_pos _), spacing, Nat.pow_eq,
      ← Nat.pow_add]
    exact Nat.le_trans (Nat.pow_le_pow_right (by decide) (by omega)) (Nat.log2_self_le hne)
  rw [significand, quanta_of_round? h]
  generalize hr : roundDiv num (den * spacing (num / den)) = r at *
  rw [spacing, Nat.pow_eq]
  generalize (num / den).log2 - 52 = j at *
  rcases Nat.lt_or_eq_of_le hle with hlt | heq
  · rw [spacing_mul_two_pow hlt hnormal, Nat.mul_div_cancel _ (Nat.two_pow_pos j)]
    exact heven
  · -- Rounding up to the next binade leaves the least significand of that one.
    have hnext : r * 2 ^ j = 2 ^ 52 * 2 ^ (j + 1) := by
      rw [heq, Nat.pow_succ]
      ring
    rw [hnext, spacing_mul_two_pow (by decide) (fun _ => Nat.le_refl _),
      Nat.mul_div_cancel _ (Nat.two_pow_pos _)]
    decide

/-- No representable number is nearer than the rounded one, and if another is as near, the rounded
one has an even significand. -/
theorem round?_nearest (hden : 0 < den) (h : round? num den = some m) {z : ℤ}
    (hz : Representable z.natAbs) (hne : z ≠ m.quanta) :
    |(m.quanta : ℤ) * den - num| ≤ |z * den - num| ∧
      (|z * den - num| = |(m.quanta : ℤ) * den - num| → Even m.significand) := by
  have heven := even_significand h
  have hquanta := quanta_of_round? h
  have hunit : 0 < den * spacing (num / den) := Nat.mul_pos hden (spacing_pos _)
  have hscale (k : ℤ) : k * spacing (num / den) * den = k * (den * spacing (num / den) : ℕ) := by
    push_cast
    ring
  rw [hquanta] at hne ⊢
  rw [Nat.cast_mul, hscale]
  rcases hz.dvd_or_lt (num / den) with hdvd | ⟨hlow, hbinade⟩
  · obtain ⟨k, rfl⟩ := Int.natCast_dvd.2 hdvd
    rw [mul_comm _ k] at hne ⊢
    rw [hscale]
    have hk : k ≠ roundDiv num (den * spacing (num / den)) := by
      rintro rfl
      exact hne (by push_cast; rfl)
    obtain ⟨hle, htie⟩ := roundDiv_nearest num hunit hk
    exact ⟨hle, fun h => heven (htie h)⟩
  · -- The bottom of the binade is on the grid, and nearer than anything below it.
    have hbottom : ((2 ^ 52 : ℕ) : ℤ) * (den * spacing (num / den) : ℕ) ≤ num := by
      have : 2 ^ 52 * (den * spacing (num / den)) ≤ num := by
        calc 2 ^ 52 * (den * spacing (num / den)) = 2 ^ 52 * spacing (num / den) * den := by ring
          _ ≤ num / den * den := Nat.mul_le_mul_right _ hbinade
          _ ≤ num := Nat.div_mul_le_self ..
      exact_mod_cast this
    have hbelow : z * den < ((2 ^ 52 : ℕ) : ℤ) * (den * spacing (num / den) : ℕ) := by
      rw [← hscale]
      refine Int.mul_lt_mul_of_pos_right ?_ (by omega)
      have : (z.natAbs : ℤ) < ((2 ^ 52 * spacing (num / den) : ℕ) : ℤ) := by exact_mod_cast hlow
      push_cast at this ⊢
      omega
    have hlt := roundDiv_nearer num hunit hbottom hbelow
    exact ⟨hlt.le, fun h => absurd h hlt.ne'⟩

end Magnitude

/-! ### Integers -/

namespace Binary64

/-- Whether a finite number is the one nearest to `q`: no other is nearer, and if another is as
near, this one has an even significand. -/
def IsNearest (x : Binary64) (q : ℚ) : Prop :=
  ∃ s m, x = finite s m ∧ ∀ t n, finiteValue t n ≠ finiteValue s m →
    |finiteValue s m - q| ≤ |finiteValue t n - q| ∧
      (|finiteValue t n - q| = |finiteValue s m - q| → Even m.significand)

/-- Distances from an integer, in quanta. -/
theorem abs_finiteValue_sub (s : Bool) (m : Magnitude) (z : ℤ) :
    |finiteValue s m - z| = (|signed s m - z * quantaPerOne| : ℤ) / (quantaPerOne : ℚ) := by
  have hpos : (0 : ℚ) < quantaPerOne := by exact_mod_cast quantaPerOne_pos
  rw [finiteValue, div_sub' hpos.ne', abs_div, abs_of_pos hpos]
  push_cast
  rw [mul_comm (quantaPerOne : ℚ)]

theorem natAbs_signed (s : Bool) (m : Magnitude) : (signed s m).natAbs = m.quanta := by
  exact_mod_cast (Int.abs_eq_natAbs _).symm.trans (abs_signed s m)

/-- Rounding to the nearest number of quanta, with signs. -/
theorem signed_nearest (negative : Bool) {num : ℕ} {m : Magnitude}
    (h : Magnitude.round? num 1 = some m) {t : Bool} {n : Magnitude}
    (hne : signed t n ≠ signed negative m) {z : ℤ} (hz : z = if negative then -(num : ℤ) else num) :
    |signed negative m - z| ≤ |signed t n - z| ∧
      (|signed t n - z| = |signed negative m - z| → Even m.significand) := by
  have hn : Representable (signed t n).natAbs := by
    rw [natAbs_signed]
    exact n.representable
  subst hz
  cases negative with
  | false =>
    have hnearest := Magnitude.round?_nearest Nat.one_pos h hn hne
    simpa [signed] using hnearest
  | true =>
    -- Both sides are mirrored at zero.
    have hmirror (a b : ℤ) : |(-a) - (-b)| = |a - b| := by
      rw [neg_sub_neg, abs_sub_comm]
    have hne' : -signed t n ≠ m.quanta := fun h => hne (by rw [← neg_neg (signed t n), h]; rfl)
    have hnearest := Magnitude.round?_nearest Nat.one_pos h (by rwa [Int.natAbs_neg]) hne'
    rw [Nat.cast_one, mul_one, mul_one, ← hmirror (m.quanta : ℤ), ← hmirror (-signed t n),
      neg_neg] at hnearest
    exact hnearest

theorem two_pow_mul_quantaPerOne_le {k : ℕ} (hk : k ≤ 1024) :
    2 ^ k * quantaPerOne ≤ quantaLimit := by
  have hplace : k + 1074 ≤ 2098 := by omega
  unfold quantaPerOne
  generalize 1074 = e at hplace
  rw [Nat.pow_eq, ← Nat.pow_add]
  exact two_pow_le_quantaLimit hplace

theorem round_of_round? (negative : Bool) {num den : ℕ} {m : Magnitude}
    (h : Magnitude.round? num den = some m) : round negative num den = finite negative m := by
  unfold round
  rw [h]

/-- Integers below half the range round to finite numbers. -/
theorem exists_ofInt_eq {z : ℤ} {k : ℕ} (hk : k ≤ 1023) (hz : z.natAbs < 2 ^ k) :
    ∃ m, Magnitude.round? (z.natAbs * quantaPerOne) 1 = some m ∧ ofInt z = finite (z < 0) m := by
  have hlimit : 2 * (z.natAbs * quantaPerOne) < quantaLimit := by
    calc 2 * (z.natAbs * quantaPerOne) = 2 * z.natAbs * quantaPerOne := by ring
      _ < 2 ^ (k + 1) * quantaPerOne := by
          rw [Nat.pow_succ']
          refine (Nat.mul_lt_mul_right quantaPerOne_pos).2 (by omega)
      _ ≤ quantaLimit := two_pow_mul_quantaPerOne_le (by omega)
  have hround : ∃ m, Magnitude.round? (z.natAbs * quantaPerOne) 1 = some m :=
    Magnitude.exists_round? (by rwa [Nat.div_one])
  obtain ⟨m, hm⟩ := hround
  exact ⟨m, hm, round_of_round? _ hm⟩

/-- An integer in quanta, by its sign and size. -/
theorem mul_quantaPerOne (z : ℤ) : z * quantaPerOne
    = if decide (z < 0) then -((z.natAbs * quantaPerOne : ℕ) : ℤ)
      else (z.natAbs * quantaPerOne : ℕ) := by
  rcases lt_or_ge z 0 with hneg | hnonneg
  · rw [if_pos (by simpa using hneg), Nat.cast_mul, Int.ofNat_natAbs_of_nonpos hneg.le, neg_mul,
      neg_neg]
  · rw [if_neg (by simpa using hnonneg), Nat.cast_mul, Int.natAbs_of_nonneg hnonneg]

/-- **Integers become the nearest number.** -/
theorem isNearest_ofInt {z : ℤ} {k : ℕ} (hk : k ≤ 1023) (hz : z.natAbs < 2 ^ k) :
    (ofInt z).IsNearest z := by
  obtain ⟨m, hm, hofInt⟩ := exists_ofInt_eq hk hz
  have hpos : (0 : ℚ) < quantaPerOne := by exact_mod_cast quantaPerOne_pos
  refine ⟨decide (z < 0), m, hofInt, fun t n hne => ?_⟩
  have hsigned : signed t n ≠ signed (decide (z < 0)) m := by
    intro h
    exact hne (by rw [finiteValue, finiteValue, h])
  rw [abs_finiteValue_sub, abs_finiteValue_sub, div_le_div_iff_of_pos_right hpos,
    div_left_inj' hpos.ne', Int.cast_le, Int.cast_inj]
  exact signed_nearest _ hm hsigned (mul_quantaPerOne z)

/-- Integers that are numbers of the format become those. -/
theorem value?_ofInt {z : ℤ} (hz : Representable (z.natAbs * quantaPerOne)) :
    (ofInt z).value? = some (.ofRat z) := by
  have hofInt : ofInt z = finite (z < 0) ⟨z.natAbs * quantaPerOne, hz⟩ :=
    round_quanta _ ⟨z.natAbs * quantaPerOne, hz⟩
  have hsigned : signed (decide (z < 0)) ⟨z.natAbs * quantaPerOne, hz⟩ = z * quantaPerOne :=
    (mul_quantaPerOne z).symm
  have hvalue : finiteValue (decide (z < 0)) ⟨z.natAbs * quantaPerOne, hz⟩ = z := by
    rw [finiteValue, hsigned, Int.cast_mul, Int.cast_natCast,
      mul_div_cancel_right₀ _ (by exact_mod_cast quantaPerOne_pos.ne')]
  rw [hofInt, value?, hvalue]

/-- Integers of 53 bits are numbers of the format. -/
theorem representable_of_natAbs_le {z : ℤ} (hz : z.natAbs ≤ 2 ^ 53) :
    Representable (z.natAbs * quantaPerOne) := by
  have hlimit : z.natAbs * quantaPerOne < quantaLimit := by
    have hlt : z.natAbs * quantaPerOne < 2 ^ 54 * quantaPerOne :=
      (Nat.mul_lt_mul_right quantaPerOne_pos).2 (by omega)
    exact hlt.trans_le (two_pow_mul_quantaPerOne_le (by decide))
  unfold quantaPerOne at hlimit ⊢
  generalize 1074 = e at hlimit ⊢
  exact representable_mul_two_pow hz hlimit

namespace IsNearest

variable {x y : Binary64} {q : ℚ} {a b : ExtendedRat}

/-- No number lies between a number and the nearest one, from above. -/
theorem le_of_le (h : x.IsNearest q) (hx : x.value? = some a) (hy : y.value? = some b)
    (hle : b ≤ .ofRat q) : b ≤ a := by
  obtain ⟨s, m, rfl, hnearest⟩ := h
  obtain rfl := Option.some.inj hx
  cases y with
  | nan => cases hy
  | infinity t =>
    obtain rfl := Option.some.inj hy
    cases t with
    | false => exact absurd hle (not_le.2 (ExtendedRat.ofRat_lt_top q))
    | true => exact bot_le
  | finite t n =>
    obtain rfl := Option.some.inj hy
    rw [ExtendedRat.ofRat_le_ofRat] at hle ⊢
    by_contra hlt
    have hdistance := (hnearest t n (by linarith)).1
    rw [abs_of_nonpos (by linarith), abs_of_nonpos (by linarith)] at hdistance
    linarith

/-- No number lies between a number and the nearest one, from below. -/
theorem le_of_ge (h : x.IsNearest q) (hx : x.value? = some a) (hy : y.value? = some b)
    (hle : .ofRat q ≤ b) : a ≤ b := by
  obtain ⟨s, m, rfl, hnearest⟩ := h
  obtain rfl := Option.some.inj hx
  cases y with
  | nan => cases hy
  | infinity t =>
    obtain rfl := Option.some.inj hy
    cases t with
    | false => exact le_top
    | true => exact absurd hle (not_le.2 (ExtendedRat.bot_lt_ofRat q))
  | finite t n =>
    obtain rfl := Option.some.inj hy
    rw [ExtendedRat.ofRat_le_ofRat] at hle ⊢
    by_contra hlt
    have hdistance := (hnearest t n (by linarith)).1
    rw [abs_of_nonneg (by linarith), abs_of_nonneg (by linarith)] at hdistance
    linarith

end IsNearest

end Binary64

end SmallLisp
