import Mathlib.Algebra.Order.Floor.Ring
import Mathlib.Data.Rat.Floor
import SmallLisp.Primitive.Apply
import SmallLisp.Proofs.Binary64.Nearest

/-!
# Exact integers

Operations on integers are exact.  `ExactResult` says what that means for each of them: sums,
differences, products, quotients truncated toward zero, remainders, sizes, and sums of lists.  Made
step by step in 128 bits, they neither run out of bits nor divide by zero (`ExactResult.wide?_eq`);
for sums of lists the invariant is that there is room for as many integers as are left
(`Wide.foldlM_result?`).  What has 64 bits stays an integer and all else becomes the nearest
floating-point number (`integer_arithmetic_exact`).

Powers are exact while they fit, but an exponent of more than 32 bits makes a floating-point number
even of those that do (`power_keeps_iff`).
-/

namespace SmallLisp

/-! ### Truncation -/

/-- A rational number without its fraction, toward zero. -/
def truncate (q : ℚ) : ℤ := if 0 ≤ q then ⌊q⌋ else ⌈q⌉

theorem truncate_neg (q : ℚ) : truncate (-q) = -truncate q := by
  unfold truncate
  rcases lt_trichotomy q 0 with hneg | rfl | hpos
  · rw [if_pos (by linarith), if_neg (by linarith), Int.floor_neg]
  · simp
  · rw [if_neg (by linarith), if_pos hpos.le, Int.ceil_neg]

theorem truncate_natCast_div (m n : ℕ) : truncate ((m : ℚ) / n) = (m / n : ℕ) := by
  rw [truncate, if_pos (by positivity)]
  exact Rat.floor_intCast_div_natCast m n

/-- The quotient of integers is the rational one, truncated. -/
theorem tdiv_eq_truncate (a b : ℤ) : a.tdiv b = truncate ((a : ℚ) / b) := by
  obtain ⟨m, rfl | rfl⟩ := a.eq_nat_or_neg <;> obtain ⟨n, rfl | rfl⟩ := b.eq_nat_or_neg
  · simp [truncate_natCast_div]
  · simp [div_neg, truncate_neg, truncate_natCast_div]
  · simp [neg_div, truncate_neg, truncate_natCast_div]
  · simp [neg_div_neg_eq, truncate_natCast_div]

/-! ### Integers of 128 bits -/

/-- Whether an integer has 128 bits. -/
abbrev IsInt128 (z : ℤ) : Prop := -2 ^ 127 ≤ z ∧ z < 2 ^ 127

namespace Wide

/-- An exact result, if it has 128 bits. -/
def result? (z : ℤ) : Option ℤ := if IsInt128 z then some z else none

/-- A quotient in 128 bits; nothing is divided by zero. -/
def quotient? (a b : ℤ) : Option ℤ := if b = 0 then none else result? (a.tdiv b)

/-- A remainder in 128 bits, which takes a division. -/
def remainder? (a b : ℤ) : Option ℤ := (quotient? a b).map fun _ => a.tmod b

/-- The size of one integer with the sign of another in 128 bits. -/
def copySign? (a b : ℤ) : Option ℤ := do
  let size ← result? |a|
  if b < 0 then result? (-size) else return size

/-- A sum in 128 bits, from left to right. -/
def sum? (ints : List ℤ) : Option ℤ := ints.foldlM (fun total n => result? (total + n)) 0

end Wide

/-- What an operation on integers comes to if each of its steps is made in 128 bits.  There is
nothing if one of them does not fit or divides by zero. -/
def Primitive.wide? : Primitive → List Value → Option ℤ
  | add, [.int a, .int b] => Wide.result? (a.toInt + b.toInt)
  | subtract, [.int a] => Wide.result? (-a.toInt)
  | subtract, [.int a, .int b] => Wide.result? (a.toInt - b.toInt)
  | multiply, [.int a, .int b] => Wide.result? (a.toInt * b.toInt)
  | divide, [.int a, .int b] => Wide.quotient? a.toInt b.toInt
  | remainder, [.int a, .int b] => Wide.remainder? a.toInt b.toInt
  | abs, [.int a] => Wide.result? |a.toInt|
  | copysign, [.int a, .int b] => Wide.copySign? a.toInt b.toInt
  | fsum, [.list items] => (allInts? items).bind Wide.sum?
  | _, _ => none

/-- The exact result of an operation on integers. -/
inductive ExactResult : Primitive → List Value → ℤ → Prop
  | add (a b : Int64) : ExactResult .add [.int a, .int b] (a.toInt + b.toInt)
  | subtract (a b : Int64) : ExactResult .subtract [.int a, .int b] (a.toInt - b.toInt)
  | negate (a : Int64) : ExactResult .subtract [.int a] (-a.toInt)
  | multiply (a b : Int64) : ExactResult .multiply [.int a, .int b] (a.toInt * b.toInt)
  | divide (a b : Int64) (nonzero : b ≠ 0) :
      ExactResult .divide [.int a, .int b] (truncate (a.toInt / b.toInt))
  | remainder (a b : Int64) (nonzero : b ≠ 0) :
      ExactResult .remainder [.int a, .int b]
        (a.toInt - b.toInt * truncate (a.toInt / b.toInt))
  | abs (a : Int64) : ExactResult .abs [.int a] |a.toInt|
  | copysign (a b : Int64) :
      ExactResult .copysign [.int a, .int b] (if b.toInt < 0 then -|a.toInt| else |a.toInt|)
  | fsum (ns : List Int64) (short : ns.length < 2 ^ 64) :
      ExactResult .fsum [.list (ns.map .int)] (ns.map Int64.toInt).sum

/-! ### Sizes -/

theorem natAbs_toInt_le (n : Int64) : n.toInt.natAbs ≤ 2 ^ 63 := by
  have hlow := n.le_toInt
  have hhigh := n.toInt_lt
  omega

theorem toInt_ne_zero {n : Int64} (h : n ≠ 0) : n.toInt ≠ 0 := by
  rwa [← Int64.toInt_zero, Ne, Int64.toInt_inj]

theorem natAbs_sum_le (ns : List Int64) :
    (ns.map Int64.toInt).sum.natAbs ≤ ns.length * 2 ^ 63 := by
  induction ns with
  | nil => simp
  | cons n ns ih =>
    have hn := natAbs_toInt_le n
    rw [List.map_cons, List.sum_cons, List.length_cons, Nat.succ_mul]
    omega

namespace Wide

theorem result?_of_natAbs_lt {z : ℤ} (h : z.natAbs < 2 ^ 127) : result? z = some z :=
  if_pos (by constructor <;> omega)

/-- A sum that has room for as many integers as are left goes through. -/
theorem foldlM_result? {ns : List Int64} {total : ℤ}
    (h : total.natAbs + ns.length * 2 ^ 63 < 2 ^ 127) :
    (ns.map Int64.toInt).foldlM (fun total n => result? (total + n)) total
      = some (total + (ns.map Int64.toInt).sum) := by
  induction ns generalizing total with
  | nil => simp
  | cons n ns ih =>
    have hn := natAbs_toInt_le n
    rw [List.length_cons, Nat.succ_mul] at h
    rw [List.map_cons, List.foldlM_cons, result?_of_natAbs_lt (by omega), Option.bind_eq_bind,
      Option.bind_some, ih (by omega), List.sum_cons, add_assoc]

end Wide

theorem allInts?_map_int (ns : List Int64) :
    Primitive.allInts? (ns.map .int) = some (ns.map Int64.toInt) := by
  induction ns with
  | nil => rfl
  | cons n ns ih => rw [List.map_cons, Primitive.allInts?, ih]; rfl

namespace ExactResult

variable {p : Primitive} {args : List Value} {z : ℤ}

/-- Exact results leave room in 128 bits. -/
theorem natAbs_lt (h : ExactResult p args z) : z.natAbs < 2 ^ 127 := by
  cases h with
  | add a b =>
    have ha := natAbs_toInt_le a
    have hb := natAbs_toInt_le b
    omega
  | subtract a b =>
    have ha := natAbs_toInt_le a
    have hb := natAbs_toInt_le b
    omega
  | negate a =>
    have ha := natAbs_toInt_le a
    omega
  | multiply a b =>
    rw [Int.natAbs_mul]
    have := Nat.mul_le_mul (natAbs_toInt_le a) (natAbs_toInt_le b)
    omega
  | divide a b nonzero =>
    rw [← tdiv_eq_truncate]
    have ha := natAbs_toInt_le a
    have hquotient := Int.natAbs_tdiv_le_natAbs a.toInt b.toInt
    omega
  | remainder a b nonzero =>
    rw [← tdiv_eq_truncate, ← Int.tmod_def, Int.natAbs_tmod]
    have ha := natAbs_toInt_le a
    have hremainder := Nat.mod_le a.toInt.natAbs b.toInt.natAbs
    omega
  | abs a =>
    have ha := natAbs_toInt_le a
    rw [Int.abs_eq_natAbs]
    omega
  | copysign a b =>
    have ha := natAbs_toInt_le a
    rw [Int.abs_eq_natAbs]
    split_ifs <;> omega
  | fsum ns short =>
    have hsum := natAbs_sum_le ns
    omega

theorem quotient?_eq (a b : Int64) (nonzero : b ≠ 0) :
    Wide.quotient? a.toInt b.toInt = some (a.toInt.tdiv b.toInt) := by
  have hlt := (ExactResult.divide a b nonzero).natAbs_lt
  rw [← tdiv_eq_truncate] at hlt
  rw [Wide.quotient?, if_neg (toInt_ne_zero nonzero), Wide.result?_of_natAbs_lt hlt]

/-- Each step of an operation fits in 128 bits. -/
theorem wide?_eq (h : ExactResult p args z) : p.wide? args = some z := by
  have hz := Wide.result?_of_natAbs_lt h.natAbs_lt
  cases h with
  | add a b => exact hz
  | subtract a b => exact hz
  | negate a => exact hz
  | multiply a b => exact hz
  | divide a b nonzero =>
    rw [← tdiv_eq_truncate]
    exact quotient?_eq a b nonzero
  | remainder a b nonzero =>
    rw [← tdiv_eq_truncate, ← Int.tmod_def, Primitive.wide?, Wide.remainder?,
      quotient?_eq a b nonzero, Option.map_some]
  | abs a => exact hz
  | copysign a b =>
    have hsize := Wide.result?_of_natAbs_lt (ExactResult.abs a).natAbs_lt
    rw [Primitive.wide?, Wide.copySign?, hsize, Option.bind_eq_bind, Option.bind_some]
    -- Only a change of sign is a step of its own, and it gives the result.
    split_ifs with hneg
    · rwa [if_pos hneg] at hz
    · rfl
  | fsum ns short =>
    rw [Primitive.wide?, allInts?_map_int, Option.bind_some, Wide.sum?,
      Wide.foldlM_result? (by omega), zero_add]

theorem apply_eq (h : ExactResult p args z) : p.apply args = .ok (.ofInt z) := by
  cases h with
  | add a b => rfl
  | subtract a b => rfl
  | negate a => rfl
  | multiply a b => rfl
  | divide a b nonzero =>
    rw [← tdiv_eq_truncate]
    exact if_neg nonzero
  | remainder a b nonzero =>
    rw [← tdiv_eq_truncate, ← Int.tmod_def]
    exact if_neg nonzero
  | abs a =>
    rw [Int.abs_eq_natAbs]
    rfl
  | copysign a b =>
    rw [Int.abs_eq_natAbs]
    rfl
  | fsum ns short =>
    rw [Primitive.apply, Primitive.summing, allInts?_map_int, List.sum_eq_foldr]

end ExactResult

/-! ### Promotion -/

/-- Whether a value stands for an integer: it is that integer if that has 64 bits, and otherwise the
nearest floating-point number. -/
def Value.Represents (v : Value) (z : ℤ) : Prop :=
  if IsInt64 z then ∃ n : Int64, v = .int n ∧ n.toInt = z
  else ∃ x : Binary64, v = .real x ∧ x.IsNearest z

theorem Value.represents_ofInt {z : ℤ} {k : ℕ} (hk : k ≤ 1023) (hz : z.natAbs < 2 ^ k) :
    (Value.ofInt z).Represents z := by
  unfold Value.Represents Value.ofInt
  split_ifs with hfits
  · exact ⟨_, rfl, Int64.toInt_ofInt_of_le hfits.1 hfits.2⟩
  · exact ⟨_, rfl, Binary64.isNearest_ofInt hk hz⟩

/-- **Arithmetic on integers is exact.**  No step leaves 128 bits or divides by zero, and the value
is the exact result as far as 64 bits go, and the nearest floating-point number beyond.  Nothing is
divided by the integer zero. -/
theorem integer_arithmetic_exact :
    (∀ p args z, ExactResult p args z →
      p.wide? args = some z ∧ ∃ v, p.apply args = .ok v ∧ v.Represents z) ∧
    (∀ a : Int64, Primitive.divide.apply [.int a, .int 0] = .error .invalidInput ∧
      Primitive.remainder.apply [.int a, .int 0] = .error .invalidInput) ∧
    Error.invalidInput.message = "syntax error: invalid procedure input" := by
  refine ⟨fun p args z h => ⟨h.wide?_eq, _, h.apply_eq, ?_⟩, fun a => ⟨rfl, rfl⟩, by decide⟩
  exact Value.represents_ofInt (by decide) h.natAbs_lt

/-- The least integer has no counterpart of 64 bits, and sums may leave 64 bits and come back. -/
theorem integer_arithmetic_exact_limits :
    (∃ v, Primitive.divide.apply [.int Int64.minValue, .int (-1)] = .ok v ∧
      v.Represents (2 ^ 63)) ∧
    ∃ v, Primitive.fsum.apply
        [.list [.int Int64.maxValue, .int Int64.maxValue, .int Int64.minValue]] = .ok v ∧
      v.Represents (2 ^ 63 - 2) := by
  obtain ⟨-, hquotient⟩ := integer_arithmetic_exact.1 _ _ _
    (.divide Int64.minValue (-1) (by decide))
  obtain ⟨-, hsum⟩ := integer_arithmetic_exact.1 _ _ _
    (.fsum [Int64.maxValue, Int64.maxValue, Int64.minValue] (by decide))
  have hvalue : truncate ((Int64.minValue.toInt : ℚ) / (-1 : Int64).toInt) = 2 ^ 63 := by
    rw [← tdiv_eq_truncate]
    decide
  rw [hvalue] at hquotient
  exact ⟨hquotient, hsum⟩

/-! ### Powers -/

/-- Powers of the three least integers in size depend on little of the exponent. -/
theorem pow_of_natAbs_lt_two {base : ℤ} (hbase : base.natAbs < 2) (e : ℕ) :
    base ^ e = if e = 0 then 1 else if e % 2 = 0 then base * base else base := by
  have hcases : base = -1 ∨ base = 0 ∨ base = 1 := by omega
  rcases Nat.eq_zero_or_pos e with rfl | hpos
  · rw [pow_zero, if_pos rfl]
  rw [if_neg hpos.ne']
  rcases hcases with rfl | rfl | rfl
  · split_ifs with heven
    · exact (Nat.even_iff.2 heven).neg_one_pow
    · exact (Nat.odd_iff.2 (by omega)).neg_one_pow
  · rw [zero_pow hpos.ne']
    split_ifs <;> rfl
  · rw [one_pow]
    split_ifs <;> rfl

/-- From two on, no sixty-fourth power has 64 bits; below, all powers have. -/
theorem isInt64_pow_iff {base : ℤ} {e : ℕ} (he : 64 ≤ e) :
    IsInt64 (base ^ e) ↔ base.natAbs < 2 := by
  constructor
  · intro hfits
    by_contra hbase
    have hpow : 2 ^ 64 ≤ (base ^ e).natAbs := by
      rw [Int.natAbs_pow]
      calc 2 ^ 64 ≤ 2 ^ e := Nat.pow_le_pow_right (by decide) he
        _ ≤ base.natAbs ^ e := Nat.pow_le_pow_left (by omega) e
    generalize base ^ e = z at hfits hpow
    omega
  · intro hbase
    have hcases : base = -1 ∨ base = 0 ∨ base = 1 := by omega
    rw [pow_of_natAbs_lt_two hbase]
    rcases hcases with rfl | rfl | rfl <;> split_ifs <;> decide

/-- A power is found if the exponent has 32 bits and the power 64. -/
theorem intPower?_eq (base : ℤ) (e : ℕ) : Primitive.intPower? base e
    = if e < 0x100000000 ∧ IsInt64 (base ^ e) then some (base ^ e) else none := by
  have hfilter (z : ℤ) :
      (some z).filter (fun z => IsInt64 z) = if IsInt64 z then some z else none := by
    simp [Option.filter_some]
  unfold Primitive.intPower?
  by_cases he : e < 0x100000000
  · simp only [he, ↓reduceIte, true_and]
    by_cases hbase : base.natAbs < 2
    · rw [if_pos hbase, ← pow_of_natAbs_lt_two hbase, hfilter]
    · rw [if_neg hbase]
      by_cases hlow : e < 64
      · rw [if_pos hlow, Int.pow_eq, hfilter]
      · rw [if_neg hlow, if_neg ((isInt64_pow_iff (by omega)).not.2 hbase), Option.filter_none]
  · rw [if_neg he, if_neg fun h => he h.1]

/-- Whether a value keeps an integer exact as far as 64 bits go, and is a floating-point number
beyond. -/
def Value.Keeps (v : Value) (z : ℤ) : Prop :=
  if IsInt64 z then ∃ n : Int64, v = .int n ∧ n.toInt = z else ∃ x, v = .real x

/-- **Powers are kept exact** unless the exponent has more than 32 bits.  Then they are
floating-point numbers, which is wrong for the powers of zero, one and minus one only: these have
64 bits whatever the exponent. -/
theorem power_keeps_iff (base exponent : Int64) (h : 0 ≤ exponent.toInt) :
    ∃ v, Primitive.pow.apply [.int base, .int exponent] = .ok v ∧
      (v.Keeps (base.toInt ^ exponent.toInt.toNat) ↔
        exponent.toInt < 2 ^ 32 ∨ 2 ≤ base.toInt.natAbs) ∧
      (2 ^ 32 ≤ exponent.toInt → ∃ x, v = .real x) := by
  rw [Primitive.apply, Primitive.power, if_pos h, intPower?_eq]
  unfold Value.Keeps
  by_cases hfound : exponent.toInt.toNat < 0x100000000 ∧
      IsInt64 (base.toInt ^ exponent.toInt.toNat)
  · rw [if_pos hfound]
    refine ⟨_, rfl, ?_, fun hlarge => absurd hfound.1 (by omega)⟩
    rw [if_pos hfound.2]
    refine iff_of_true ?_ (Or.inl (by omega))
    exact ⟨_, rfl, Int64.toInt_ofInt_of_le hfound.2.1 hfound.2.2⟩
  · rw [if_neg hfound]
    refine ⟨_, rfl, ?_, fun _ => ⟨_, rfl⟩⟩
    by_cases hfits : IsInt64 (base.toInt ^ exponent.toInt.toNat)
    · -- The power fits, so the exponent is what is in the way.
      have hlarge : ¬exponent.toInt.toNat < 0x100000000 := fun hlow => hfound ⟨hlow, hfits⟩
      have hbase := (isInt64_pow_iff (by omega)).1 hfits
      rw [if_pos hfits]
      refine iff_of_false ?_ (by omega)
      rintro ⟨n, hn, -⟩
      cases hn
    · rw [if_neg hfits]
      refine iff_of_true ⟨_, rfl⟩ ?_
      by_contra hcond
      exact hfits ((isInt64_pow_iff (by omega)).2 (by omega))

/-- The least integer is a power and kept exact. -/
theorem power_keeps_iff_least : 0 ≤ (63 : Int64).toInt ∧
    ∃ v, Primitive.pow.apply [.int (-2), .int 63] = .ok v ∧ v.Keeps (-2 ^ 63) := by
  refine ⟨by decide, ?_⟩
  obtain ⟨v, hv, hkeeps, -⟩ := power_keeps_iff (-2) 63 (by decide)
  exact ⟨v, hv, hkeeps.2 (Or.inl (by decide))⟩

/-- One has 64 bits, but its powers are not kept exact once the exponent has more than 32. -/
theorem power_one_not_kept : IsInt64 ((1 : Int64).toInt ^ (0x100000000 : Int64).toInt.toNat) ∧
    ∃ x, Primitive.pow.apply [.int 1, .int 0x100000000] = .ok (.real x) := by
  have hone : (1 : Int64).toInt = 1 := by decide
  have hlarge : ¬(0x100000000 : Int64).toInt.toNat < 0x100000000 := by decide
  constructor
  · rw [hone, one_pow]
    decide
  · rw [Primitive.apply, Primitive.power, if_pos (by decide), intPower?_eq,
      if_neg fun h => hlarge h.1]
    exact ⟨_, rfl⟩

end SmallLisp
