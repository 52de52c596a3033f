import Mathlib.Algebra.Order.Field.Basic
import Mathlib.Algebra.Order.Field.Rat
import Mathlib.Order.WithBot
import Mathlib.Tactic.Linarith
import SmallLisp.Binary64.Basic

/-!
# Binary64 numbers on the number line

A binary64 number other than `nan` is a rational number or an infinity (`Binary64.value?`).  Its
place in quanta tells the order of these (`place_lt_iff`), so comparing numbers is comparing what
they are (`compare?_eq`, `eqv_iff`); and a number is taken for a natural number exactly if it is one
(`toNat?_eq_some_iff`).
-/

namespace SmallLisp

/-! ### The number line -/

/-- The rational numbers with two infinities. -/
abbrev ExtendedRat := WithBot (WithTop ℚ)

namespace ExtendedRat

/-- A rational number as an extended one. -/
def ofRat (q : ℚ) : ExtendedRat := ((q : WithTop ℚ) : WithBot (WithTop ℚ))

@[simp] theorem ofRat_lt_ofRat {q r : ℚ} : ofRat q < ofRat r ↔ q < r := by
  rw [ofRat, ofRat, WithBot.coe_lt_coe, WithTop.coe_lt_coe]

@[simp] theorem ofRat_le_ofRat {q r : ℚ} : ofRat q ≤ ofRat r ↔ q ≤ r := by
  rw [ofRat, ofRat, WithBot.coe_le_coe, WithTop.coe_le_coe]

@[simp] theorem ofRat_inj {q r : ℚ} : ofRat q = ofRat r ↔ q = r := by
  rw [ofRat, ofRat, WithBot.coe_inj, WithTop.coe_inj]

@[simp] theorem bot_lt_ofRat (q : ℚ) : ⊥ < ofRat q := WithBot.bot_lt_coe _

@[simp] theorem ofRat_lt_top (q : ℚ) : ofRat q < ⊤ := WithBot.coe_lt_coe.2 (WithTop.coe_lt_top q)

end ExtendedRat

theorem quantaPerOne_pos : 0 < quantaPerOne := by
  unfold quantaPerOne
  generalize 1074 = k
  exact Nat.two_pow_pos k

namespace Binary64

/-- The rational number that a finite number is. -/
def finiteValue (negative : Bool) (m : Magnitude) : ℚ := signed negative m / quantaPerOne

/-- The number on the number line that a number is; `nan` is none. -/
def value? : Binary64 → Option ExtendedRat
  | nan => none
  | infinity s => some (if s then ⊥ else ⊤)
  | finite s m => some (.ofRat (finiteValue s m))

theorem abs_signed (s : Bool) (m : Magnitude) : |signed s m| = m.quanta := by
  cases s
  · exact Nat.abs_cast _
  · exact (abs_neg _).trans (Nat.abs_cast _)

theorem finiteValue_lt_iff {s t : Bool} {m n : Magnitude} :
    finiteValue s m < finiteValue t n ↔ signed s m < signed t n := by
  unfold finiteValue
  rw [div_lt_div_iff_of_pos_right (by exact_mod_cast quantaPerOne_pos), Int.cast_lt]

theorem value?_eq_none_iff {x : Binary64} : x.value? = none ↔ x.isNan = true := by
  cases x <;> simp [value?, isNan]

theorem exists_place {x : Binary64} {a : ExtendedRat} (h : x.value? = some a) :
    ∃ p, x.place = some p := by
  cases x with
  | nan => cases h
  | infinity s => exact ⟨_, rfl⟩
  | finite s m => exact ⟨_, rfl⟩

/-! ### Order -/

/-- Places are in the order of the numbers. -/
theorem place_lt_iff {x y : Binary64} {p q : ℤ} {a b : ExtendedRat} (hp : x.place = some p)
    (hq : y.place = some q) (ha : x.value? = some a) (hb : y.value? = some b) :
    p < q ↔ a < b := by
  have hpos : (0 : ℤ) < quantaLimit := by exact_mod_cast quantaLimit_pos
  have hinside (s : Bool) (m : Magnitude) :
      -(quantaLimit : ℤ) < signed s m ∧ signed s m < quantaLimit := by
    rw [← abs_lt, abs_signed]
    exact_mod_cast m.representable.1
  -- All that matters of the limit is that it is beyond the finite numbers.
  unfold place at hp hq
  generalize (quantaLimit : ℤ) = limit at hp hq hpos hinside
  rcases x with _ | s | ⟨s, m⟩
  · cases hp
  · cases hp
    cases ha
    rcases y with _ | t | ⟨t, n⟩
    · cases hq
    · cases hq
      cases hb
      cases s <;> cases t <;> simp [hpos.le]
      omega
    · cases hq
      cases hb
      have := hinside t n
      cases s <;> simp <;> omega
  · cases hp
    cases ha
    rcases y with _ | t | ⟨t, n⟩
    · cases hq
    · cases hq
      cases hb
      have := hinside s m
      cases t <;> simp <;> omega
    · cases hq
      cases hb
      rw [ExtendedRat.ofRat_lt_ofRat, finiteValue_lt_iff]

/-- Numbers compare as their places on the number line do. -/
theorem compare?_eq {x y : Binary64} {a b : ExtendedRat} (hx : x.value? = some a)
    (hy : y.value? = some b) : x.compare? y = some (compare a b) := by
  obtain ⟨p, hp⟩ := exists_place hx
  obtain ⟨q, hq⟩ := exists_place hy
  have hlt := place_lt_iff hp hq hx hy
  have hgt := place_lt_iff hq hp hy hx
  have hcompare : compare p q = compare a b := by
    rcases lt_trichotomy a b with h | rfl | h
    · rw [compare_lt_iff_lt.2 h, compare_lt_iff_lt.2 (hlt.2 h)]
    · rw [compare_eq_iff_eq.2 rfl, compare_eq_iff_eq.2]
      have hle : ¬p < q := fun h => lt_irrefl a (hlt.1 h)
      have hge : ¬q < p := fun h => lt_irrefl a (hgt.1 h)
      omega
    · rw [compare_gt_iff_gt.2 h, compare_gt_iff_gt.2 (hgt.2 h)]
  rw [compare?, hp, hq, ← hcompare]
  rfl

/-- Nothing compares with `nan`. -/
theorem compare?_eq_none {x y : Binary64} (h : x = .nan ∨ y = .nan) : x.compare? y = none := by
  rcases h with rfl | rfl
  · rfl
  · cases x <;> rfl

/-- Numbers are equal if they are one number of the number line. -/
theorem eqv_iff {x y : Binary64} :
    x.eqv y = true ↔ ∃ a, x.value? = some a ∧ y.value? = some a := by
  have hnan {z : Binary64} (hz : z.value? = none) : z = .nan := by
    cases z with
    | nan => rfl
    | _ => cases hz
  unfold eqv
  cases hx : x.value? with
  | none =>
    rw [compare?_eq_none (Or.inl (hnan hx))]
    simp
  | some a =>
    cases hy : y.value? with
    | none =>
      rw [compare?_eq_none (Or.inr (hnan hy))]
      simp
    | some b =>
      rw [compare?_eq hx hy, beq_iff_eq, Option.some.injEq, compare_eq_iff_eq]
      simp [eq_comm]

/-! ### Natural numbers -/

/-- A number is taken for a natural number exactly if it is one. -/
theorem toNat?_eq_some_iff {x : Binary64} {n : ℕ} :
    x.toNat? = some n ↔ x.value? = some (.ofRat n) := by
  cases x with
  | nan => simp [toNat?, value?]
  | infinity s =>
    have htop := (ExtendedRat.ofRat_lt_top n).ne'
    have hbot := (ExtendedRat.bot_lt_ofRat n).ne
    cases s <;> simp [toNat?, value?, htop, hbot]
  | finite s m =>
    have hpos := quantaPerOne_pos
    have hvalue : value? (finite s m) = some (.ofRat n) ↔
        signed s m = (n * quantaPerOne : ℕ) := by
      rw [value?, Option.some.injEq, ExtendedRat.ofRat_inj, finiteValue,
        div_eq_iff (by exact_mod_cast hpos.ne')]
      exact_mod_cast Iff.rfl
    have hquotient : m.quanta % quantaPerOne = 0 ∧ m.quanta / quantaPerOne = n ↔
        m.quanta = n * quantaPerOne := by
      refine ⟨fun ⟨hmod, hdiv⟩ => ?_, fun h => ?_⟩
      · rw [← hdiv, Nat.div_mul_cancel (Nat.dvd_of_mod_eq_zero hmod)]
      · rw [h, Nat.mul_mod_left, Nat.mul_div_cancel _ hpos]
        exact ⟨rfl, rfl⟩
    rw [hvalue, toNat?, Option.ite_none_right_eq_some, Option.some.injEq, and_right_comm,
      hquotient]
    generalize n * quantaPerOne = k
    cases s with
    | false => simp [signed]
    | true =>
      simp only [signed, ↓reduceIte, forall_const]
      omega

end Binary64

end SmallLisp
