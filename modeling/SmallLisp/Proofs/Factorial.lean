import SmallLisp.Primitive.Apply
import SmallLisp.Proofs.Binary64.Nearest

/-!
# Factorials in floating point

The factorial of a floating-point number can be found without leaving floating point: from the
number down by one until zero is met, with nothing to do beyond 170 (`FactorialDown`).
`Primitive.factorialOf` goes down the natural numbers instead.  The two agree
(`factorialOf_real_iff`), since a whole number that is not zero is written in one way only
(`eq_ofInt_of_toNat?`), and the number below it is met exactly (`sub_one_eq`).
-/

namespace SmallLisp

namespace Binary64

variable {x : Binary64} {n : ℕ}

/-! ### Whole numbers -/

theorem toNat?_ofInt (hn : n ≤ 2 ^ 53) : (ofInt n).toNat? = some n := by
  have hrepresentable : Representable ((n : ℤ).natAbs * quantaPerOne) :=
    representable_of_natAbs_le (by rwa [Int.natAbs_natCast])
  rw [toNat?_eq_some_iff, value?_ofInt hrepresentable, Int.cast_natCast]

/-- A number that is a natural number other than zero is positive. -/
theorem exists_finite_of_toNat? (h : x.toNat? = some (n + 1)) :
    ∃ m : Magnitude, x = finite false m ∧ m.quanta = (n + 1) * quantaPerOne := by
  cases x with
  | nan => cases h
  | infinity s => cases h
  | finite s m =>
    rw [toNat?, Option.ite_none_right_eq_some, Option.some.injEq] at h
    obtain ⟨⟨hmod, hsign⟩, hdiv⟩ := h
    have hquanta : m.quanta = (n + 1) * quantaPerOne := by
      rw [← hdiv, Nat.div_mul_cancel (Nat.dvd_of_mod_eq_zero hmod)]
    cases s with
    | false => exact ⟨m, rfl, hquanta⟩
    | true =>
      rw [hsign rfl, Nat.zero_div] at hdiv
      cases hdiv

theorem eq_ofInt_of_toNat? (h : x.toNat? = some (n + 1)) : x = ofInt (n + 1 : ℕ) := by
  obtain ⟨m, rfl, hm⟩ := exists_finite_of_toNat? h
  rw [ofInt, Int.natAbs_natCast, ← hm, round_quanta, decide_eq_false (Int.not_lt.2 (by omega))]

/-- The number below a whole number is met exactly. -/
theorem sub_one_eq (h : x.toNat? = some (n + 1)) : x.sub one = ofInt n := by
  obtain ⟨m, rfl, hm⟩ := exists_finite_of_toNat? h
  obtain ⟨k, hk, hone⟩ : ∃ k : Magnitude, one = finite false k ∧ k.quanta = (0 + 1) * quantaPerOne :=
    exists_finite_of_toNat? (toNat?_ofInt (n := 1) (by decide))
  have hdifference : signed false m + signed true k = (n * quantaPerOne : ℕ) := by
    simp only [signed, hm, hone, Bool.false_eq_true, ↓reduceIte]
    push_cast
    ring
  rw [sub, hk]
  show ofQuanta false (signed false m + signed true k) = ofInt n
  rw [hdifference, ofQuanta]
  split_ifs with hzero
  · have hn : n = 0 :=
      (Nat.mul_eq_zero.1 (Int.natCast_eq_zero.1 hzero)).resolve_right quantaPerOne_pos.ne'
    subst hn
    rw [ofInt, Int.natAbs_natCast, Nat.zero_mul]
    exact (round_quanta false .zero).symm
  · rw [ofInt, Int.natAbs_natCast, Int.natAbs_natCast, decide_eq_false (by omega),
      decide_eq_false (by omega)]

end Binary64

namespace Primitive

variable {x y : Binary64} {n : ℕ}

/-! ### Going down in floating point -/

/-- The factorial of a number by way of those below it. -/
inductive FactorialDown : Binary64 → Binary64 → Prop
  | zero {x : Binary64} (hzero : x.eqv (.zero false) = true) : FactorialDown x .one
  | beyond {x : Binary64} (hzero : x.eqv (.zero false) = false)
      (hbeyond : (Binary64.ofInt 170).lt x = true) : FactorialDown x (.infinity false)
  | step {x y : Binary64} (hzero : x.eqv (.zero false) = false)
      (hbeyond : (Binary64.ofInt 170).lt x = false) (below : FactorialDown (x.sub .one) y) :
      FactorialDown x (x.mul y)

theorem FactorialDown.unique {z : Binary64} (hy : FactorialDown x y) (hz : FactorialDown x z) :
    y = z := by
  -- The tests of the three rules exclude each other.
  induction hy generalizing z with
  | zero hzero =>
    cases hz with
    | zero => rfl
    | beyond hzero' hbeyond' => cases hzero.symm.trans hzero'
    | step hzero' hbeyond' below' => cases hzero.symm.trans hzero'
  | beyond hzero hbeyond =>
    cases hz with
    | zero hzero' => cases hzero.symm.trans hzero'
    | beyond => rfl
    | step hzero' hbeyond' below' => cases hbeyond.symm.trans hbeyond'
  | step hzero hbeyond below ih =>
    cases hz with
    | zero hzero' => cases hzero.symm.trans hzero'
    | beyond hzero' hbeyond' => cases hbeyond.symm.trans hbeyond'
    | step hzero' hbeyond' below' => rw [ih below']

theorem eqv_zero_eq (h : x.toNat? = some n) : x.eqv (.zero false) = decide (n = 0) := by
  have hx := Binary64.toNat?_eq_some_iff.1 h
  have hzero : (Binary64.zero false).value? = some (.ofRat (0 : ℕ)) :=
    Binary64.toNat?_eq_some_iff.1 (by simp [Binary64.toNat?, Binary64.zero, Magnitude.zero])
  rw [Bool.eq_iff_iff, Binary64.eqv_iff, hx, hzero]
  simp [eq_comm]

theorem lt_ofInt_eq (h : x.toNat? = some n) : (Binary64.ofInt 170).lt x = decide (170 < n) := by
  have hx := Binary64.toNat?_eq_some_iff.1 h
  have hlimit : (Binary64.ofInt 170).value? = some (.ofRat (170 : ℕ)) :=
    Binary64.toNat?_eq_some_iff.1 (Binary64.toNat?_ofInt (n := 170) (by decide))
  rw [Binary64.lt, Binary64.compare?_eq hlimit hx, Bool.eq_iff_iff, beq_iff_eq, Option.some.injEq,
    compare_lt_iff_lt, ExtendedRat.ofRat_lt_ofRat, Nat.cast_lt, decide_eq_true_eq]

/-- Going down meets the natural numbers one by one. -/
theorem factorialDown_realFactorial (h : x.toNat? = some n) (hn : n ≤ 170) :
    FactorialDown x (realFactorial n) := by
  induction n generalizing x with
  | zero => exact .zero (by simp [eqv_zero_eq h])
  | succ n ih =>
    have hbelow : (x.sub .one).toNat? = some n := by
      rw [Binary64.sub_one_eq h, Binary64.toNat?_ofInt (by omega)]
    have hzero : x.eqv (.zero false) = false := by simp [eqv_zero_eq h]
    have hbeyond : (Binary64.ofInt 170).lt x = false := by
      rw [lt_ofInt_eq h, decide_eq_false (by omega)]
    rw [realFactorial, ← Binary64.eq_ofInt_of_toNat? h]
    exact .step hzero hbeyond (ih hbelow (by omega))

/-- **The factorial of a floating-point number that is a natural number is found by going down from
it**, though that is not how it is found here. -/
theorem factorialOf_real_iff (h : x.toNat? = some n) :
    factorialOf [.real x] = .ok (.real y) ↔ FactorialDown x y := by
  have hdown : FactorialDown x (if 170 < n then .infinity false else realFactorial n) := by
    split_ifs with hn
    · refine .beyond ?_ (by rw [lt_ofInt_eq h, decide_eq_true hn])
      rw [eqv_zero_eq h, decide_eq_false (by omega)]
    · exact factorialDown_realFactorial h (by omega)
  have hfactorial : factorialOf [.real x]
      = .ok (.real (if 170 < n then .infinity false else realFactorial n)) := by
    simp only [factorialOf, h]
  rw [hfactorial]
  constructor
  · intro heq
    cases heq
    exact hdown
  · intro hy
    rw [hdown.unique hy]

end Primitive

end SmallLisp
