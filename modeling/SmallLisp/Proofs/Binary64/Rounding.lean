import Mathlib.Tactic.Ring
import SmallLisp.Binary64.Decimal

/-!
# Rounding depends on the number only

`Magnitude.round?` takes a fraction, and equal fractions round to the same magnitude
(`round?_congr`).  So a decimal number may be written with any number of zeros at the end of its
coefficient (`ofDecimal_scaled`).  A magnitude rounds to itself (`round?_quanta`), so its exact
decimal expansion reads back, and with it whatever `Magnitude.shortest` finds
(`ofDecimal_shortest`).
-/

namespace SmallLisp

/-! ### Quotients -/

theorem roundDiv_mul_right (num den : ℕ) {k : ℕ} (hk : 0 < k) :
    roundDiv (num * k) (den * k) = roundDiv num den := by
  have hlt (a b : ℕ) : a * k < b * k ↔ a < b := Nat.mul_lt_mul_right hk
  simp only [roundDiv, Nat.mul_div_mul_right _ _ hk, Nat.mul_mod_mul_right, ← Nat.mul_assoc, hlt]

theorem roundDiv_congr {num den num' den' : ℕ} (hden : 0 < den) (hden' : 0 < den')
    (h : num * den' = num' * den) : roundDiv num den = roundDiv num' den' := by
  rw [← roundDiv_mul_right num den hden', ← roundDiv_mul_right num' den' hden, h,
    Nat.mul_comm den den']

theorem roundDiv_of_dvd {num den : ℕ} (hden : 0 < den) (h : den ∣ num) :
    roundDiv num den = num / den := by
  simp [roundDiv, Nat.mod_eq_zero_of_dvd h, hden]

theorem spacing_pos (k : ℕ) : 0 < spacing k := Nat.two_pow_pos _

namespace Magnitude

/-- Equal fractions round to the same magnitude. -/
theorem round?_congr {num den num' den' : ℕ} (hden : 0 < den) (hden' : 0 < den')
    (h : num * den' = num' * den) : round? num den = round? num' den' := by
  have hfloor : num / den = num' / den' := by
    rw [← Nat.mul_div_mul_right num den hden', h, Nat.mul_comm den den',
      Nat.mul_div_mul_right num' den' hden]
  have hround : roundDiv num (den * spacing (num' / den'))
      = roundDiv num' (den' * spacing (num' / den')) := by
    refine roundDiv_congr (Nat.mul_pos hden (spacing_pos _)) (Nat.mul_pos hden' (spacing_pos _)) ?_
    rw [← Nat.mul_assoc, ← Nat.mul_assoc, h]
  unfold round?
  simp only [hfloor, hround]

/-- A magnitude rounds to itself. -/
theorem round?_quanta (m : Magnitude) : round? m.quanta 1 = some m := by
  obtain ⟨k, hlimit, hdvd⟩ := m
  have hk : roundDiv k (1 * spacing (k / 1)) * spacing (k / 1) = k := by
    rw [Nat.div_one, Nat.one_mul, roundDiv_of_dvd (spacing_pos k) hdvd, Nat.div_mul_cancel hdvd]
  unfold round?
  simp only [hk, hlimit, ↓reduceDIte]

end Magnitude

namespace Binary64

theorem round_congr (negative : Bool) {num den num' den' : ℕ} (hden : 0 < den) (hden' : 0 < den')
    (h : num * den' = num' * den) : round negative num den = round negative num' den' := by
  unfold round
  rw [Magnitude.round?_congr hden hden' h]

theorem round_quanta (negative : Bool) (m : Magnitude) :
    round negative m.quanta 1 = finite negative m := by
  unfold round
  rw [Magnitude.round?_quanta]

/-- The sign of a number has no part in the rounding. -/
theorem round_eq_withSign (negative : Bool) (num den : ℕ) :
    round negative num den = (round false num den).withSign negative := by
  unfold round
  generalize Magnitude.round? num den = rounded
  cases rounded <;> rfl

theorem ofDecimal_eq_withSign (negative : Bool) (d : Decimal) :
    ofDecimal negative d = (ofDecimal false d).withSign negative := by
  unfold ofDecimal
  dsimp only
  split_ifs
  · rfl
  · rfl
  · exact round_eq_withSign ..

end Binary64

/-! ### Decimal numbers -/

theorem toDigits_mul_pow {n : ℕ} (hn : 0 < n) (k : ℕ) :
    Nat.toDigits 10 (n * 10 ^ k) = Nat.toDigits 10 n ++ List.replicate k '0' := by
  induction k with
  | zero => simp
  | succ k ih =>
    have hpos : 0 < n * 10 ^ k := Nat.mul_pos hn (Nat.pow_pos (by decide))
    have hstep := Nat.toDigits_append_toDigits (b := 10) (d := 0) (by decide) hpos (by decide)
    have hval : n * 10 ^ (k + 1) = 10 * (n * 10 ^ k) + 0 := by ring
    rw [hval, ← hstep, ih, List.append_assoc, List.replicate_succ']
    rfl

theorem decimalLength_mul_pow {n : ℕ} (hn : 0 < n) (k : ℕ) :
    decimalLength (n * 10 ^ k) = decimalLength n + k := by
  rw [decimalLength, toDigits_mul_pow hn, List.length_append, List.length_replicate]
  rfl

/-- The same decimal number with `k` more zeros at the end of its coefficient. -/
def Decimal.scaled (d : Decimal) (k : ℕ) : Decimal := ⟨d.coefficient * 10 ^ k, d.exponent - k⟩

namespace Binary64

/-- Zeros at the end of the coefficient make no difference. -/
theorem ofDecimal_scaled (negative : Bool) (d : Decimal) (k : ℕ) :
    ofDecimal negative (d.scaled k) = ofDecimal negative d := by
  obtain ⟨c, e⟩ := d
  rcases Nat.eq_zero_or_pos c with rfl | hc
  · simp [ofDecimal, Decimal.scaled]
  have hck : c * 10 ^ k ≠ 0 := Nat.mul_ne_zero hc.ne' (Nat.pow_pos (by decide)).ne'
  have htop : (decimalLength (c * 10 ^ k) : ℤ) + (e - k) = (decimalLength c : ℤ) + e := by
    rw [decimalLength_mul_pow hc]
    omega
  -- Whether the number is out of range is told by `htop`; otherwise the fractions are equal.
  have hround : round negative (c * 10 ^ k * 10 ^ (e - k).toNat * quantaPerOne)
        (10 ^ (-(e - k)).toNat)
      = round negative (c * 10 ^ e.toNat * quantaPerOne) (10 ^ (-e).toNat) := by
    refine round_congr negative (Nat.pow_pos (by decide)) (Nat.pow_pos (by decide)) ?_
    have hexp : k + (e - k).toNat + (-e).toNat = e.toNat + (-(e - k)).toNat := by omega
    calc c * 10 ^ k * 10 ^ (e - k).toNat * quantaPerOne * 10 ^ (-e).toNat
        = c * quantaPerOne * 10 ^ (k + (e - k).toNat + (-e).toNat) := by ring
      _ = c * 10 ^ e.toNat * quantaPerOne * 10 ^ (-(e - k)).toNat := by rw [hexp]; ring
  simp only [ofDecimal, Decimal.scaled, Nat.pow_eq, hck, hc.ne', htop, hround, false_or]

end Binary64

/-! ### The shortest decimal number reads back -/

namespace Magnitude

theorem lt_decimalLength_mul {k b n : ℕ} (hn : 0 < n) (hk : 0 < k) (hb : 10 ^ n ≤ b) :
    n < decimalLength (k * b) := by
  rw [decimalLength, ← Nat.not_le, Nat.length_toDigits_le_iff (by decide) hn, Nat.not_lt]
  exact Nat.le_trans hb (Nat.le_mul_of_pos_left _ hk)

theorem decimalLength_mul_le {k l b n : ℕ} (hn : 0 < n) (hb : 0 < b) (hk : k < l)
    (hl : l * b ≤ 10 ^ n) : decimalLength (k * b) ≤ n := by
  rw [decimalLength, Nat.length_toDigits_le_iff (by decide) hn]
  exact Nat.lt_of_lt_of_le ((Nat.mul_lt_mul_right hb).mpr hk) hl

/-- The expansion of a magnitude in full is neither so small that it is taken for zero, nor so
large that it is taken for infinite. -/
theorem decimalLength_exact {m : Magnitude} (hm : m.quanta ≠ 0) :
    743 < decimalLength (m.quanta * Nat.pow 5 1074) ∧
      decimalLength (m.quanta * Nat.pow 5 1074) ≤ 1384 := by
  have hlow : 10 ^ 743 ≤ Nat.pow 5 1074 := by decide +kernel
  have hhigh : quantaLimit * Nat.pow 5 1074 ≤ 10 ^ 1384 := by
    unfold quantaLimit
    decide +kernel
  exact ⟨lt_decimalLength_mul (by decide) (Nat.pos_of_ne_zero hm) hlow,
    decimalLength_mul_le (by decide) (by decide +kernel) m.representable.1 hhigh⟩

/-- A decimal number that equals a magnitude reads back. -/
theorem readsBack_of_eq {m : Magnitude} {d : Decimal} (hd : d.coefficient ≠ 0)
    (hlow : -330 ≤ (decimalLength d.coefficient : ℤ) + d.exponent)
    (hhigh : (decimalLength d.coefficient : ℤ) + d.exponent ≤ 310)
    (heq : d.coefficient * Nat.pow 10 d.exponent.toNat * quantaPerOne
      = m.quanta * Nat.pow 10 (-d.exponent).toNat) : m.readsBack d = true := by
  have hpos : 0 < Nat.pow 10 (-d.exponent).toNat := Nat.pow_pos (by decide)
  rw [readsBack, decide_eq_true_eq, Binary64.ofDecimal, if_neg (by omega), if_neg (by omega),
    ← Binary64.round_quanta false m]
  refine Binary64.round_congr false hpos Nat.one_pos ?_
  rw [Nat.mul_one, heq]

theorem readsBack_exactDecimal {m : Magnitude} (hm : m.quanta ≠ 0) :
    m.readsBack m.exactDecimal = true := by
  obtain ⟨hlow, hhigh⟩ := decimalLength_exact hm
  have hexponent : m.exactDecimal.exponent = -1074 := rfl
  refine readsBack_of_eq (Nat.mul_ne_zero hm (by decide +kernel)) ?_ ?_ ?_
  · show -330 ≤ (decimalLength (m.quanta * Nat.pow 5 1074) : ℤ) + -1074
    omega
  · show (decimalLength (m.quanta * Nat.pow 5 1074) : ℤ) + -1074 ≤ 310
    omega
  · have hup : (-1074 : ℤ).toNat = 0 := rfl
    have hdown : (-(-1074 : ℤ)).toNat = 1074 := rfl
    rw [hexponent, hup, hdown]
    unfold exactDecimal quantaPerOne
    generalize 1074 = n
    simp only [Nat.pow_eq, Nat.pow_zero, Nat.mul_one]
    rw [Nat.mul_assoc, ← Nat.mul_pow]

theorem readsBack_of_onGrid? {m : Magnitude} {e : ℤ} {d : Decimal} (h : m.onGrid? e = some d) :
    m.readsBack d = true := by
  unfold onGrid? at h
  dsimp only at h
  split_ifs at h with hbelow habove
  · obtain rfl := Option.some.inj h
    rw [Bool.and_eq_true] at hbelow
    exact hbelow.1
  · obtain rfl := Option.some.inj h
    exact habove

theorem readsBack_shortest {m : Magnitude} (hm : m.quanta ≠ 0) :
    m.readsBack m.shortest = true := by
  unfold shortest
  dsimp only
  rcases hgrid : (List.range 17).findSome? fun (n : ℕ) => m.onGrid? (m.decimalExponent - n) with
    _ | d
  · exact readsBack_exactDecimal hm
  · obtain ⟨n, -, hn⟩ := List.exists_of_findSome?_eq_some hgrid
    exact readsBack_of_onGrid? hn

/-- The shortest decimal number is nearest to its magnitude, with either sign. -/
theorem ofDecimal_shortest {m : Magnitude} (hm : m.quanta ≠ 0) (negative : Bool) :
    Binary64.ofDecimal negative m.shortest = .finite negative m := by
  have h : Binary64.ofDecimal false m.shortest = .finite false m := by
    simpa [readsBack] using readsBack_shortest hm
  rw [Binary64.ofDecimal_eq_withSign, h]
  rfl

theorem coefficient_shortest_ne_zero {m : Magnitude} (hm : m.quanta ≠ 0) :
    m.shortest.coefficient ≠ 0 := by
  intro hzero
  have h := ofDecimal_shortest hm false
  rw [Binary64.ofDecimal] at h
  simp only [hzero, true_or, ↓reduceIte, Binary64.zero, Binary64.finite.injEq, true_and] at h
  exact hm (by rw [← h]; rfl)

end Magnitude

end SmallLisp
