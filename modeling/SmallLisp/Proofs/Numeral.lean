import Mathlib.Data.List.TakeWhile
import Mathlib.Tactic.Ring
import SmallLisp.Numeral

/-!
# Reading digits back

The decimal digits of a number read back as that number, alone (`integer?_toString`) and as a part
of a decimal number: `splitDigits_append` cuts them off what follows, and `ofDigits_append` and
`ofDigits_toDigits` give their value.  A text with anything else than digits behind its sign is no
integer (`integer?_eq_none`), and one that starts with a digit is none of the words for numbers
(`real?_of_digit`).
-/

namespace SmallLisp.Numeral

/-! ### Values of digits -/

theorem ofDigits_toDigits (n : ℕ) : ofDigits (Nat.toDigits 10 n) = n :=
  Nat.ofDigitChars_ten_toDigits

theorem ofDigits_append (xs ys : List Char) :
    ofDigits (xs ++ ys) = ofDigits xs * 10 ^ ys.length + ofDigits ys := by
  show Nat.ofDigitChars 10 (xs ++ ys) 0 = _
  rw [Nat.ofDigitChars_append, Nat.ofDigitChars_eq_ofDigitChars_zero, Nat.mul_comm]
  rfl

theorem ofDigits_replicate_zero (k : ℕ) : ofDigits (List.replicate k '0') = 0 := by
  show Nat.ofDigitChars 10 (List.replicate k '0') 0 = 0
  rw [Nat.ofDigitChars_replicate_zero, Nat.mul_zero]

theorem isDigit_toDigits {n : ℕ} {c : Char} (h : c ∈ Nat.toDigits 10 n) : c.isDigit = true :=
  Nat.isDigit_of_mem_toDigits (by decide) (by decide) h

/-! ### Cutting off digits -/

/-- Digits are cut off before anything that does not start with one. -/
theorem splitDigits_append {ds rest : List Char} (hds : ∀ c ∈ ds, c.isDigit = true)
    (hrest : ∀ c ∈ rest.head?, c.isDigit = false) : splitDigits (ds ++ rest) = (ds, rest) := by
  have hsplit : rest.takeWhile Char.isDigit = [] ∧ rest.dropWhile Char.isDigit = rest := by
    rcases rest with _ | ⟨c, rest⟩
    · exact ⟨rfl, rfl⟩
    · have hc : c.isDigit = false := hrest c rfl
      simp [hc]
  rw [splitDigits, List.takeWhile_append_of_pos hds, List.dropWhile_append_of_pos hds, hsplit.1,
    hsplit.2, List.append_nil]

/-- A digit is no sign. -/
theorem splitSign_of_digit {c : Char} (hc : c.isDigit = true) (cs : List Char) :
    splitSign (c :: cs) = (false, c :: cs) := by
  unfold splitSign
  split
  · rename_i heq
    obtain ⟨rfl, -⟩ := List.cons.inj heq
    simp at hc
  · rename_i heq
    obtain ⟨rfl, -⟩ := List.cons.inj heq
    simp at hc
  · rfl

/-! ### Integers -/

theorem integer?_of_digits {ds : List Char} (hne : ds ≠ []) (hds : ∀ c ∈ ds, c.isDigit = true) :
    integer? ds = some (ofDigits ds : ℤ) ∧ integer? ('-' :: ds) = some (-(ofDigits ds : ℤ)) := by
  obtain ⟨c, cs, rfl⟩ := List.exists_cons_of_ne_nil hne
  have hall : (c :: cs).all Char.isDigit = true := List.all_eq_true.mpr hds
  constructor
  · rw [integer?, splitSign_of_digit (hds c (List.mem_cons_self ..))]
    simp [hall]
  · rw [integer?, splitSign]
    simp [hall]

/-- The text of an integer reads back. -/
theorem integer?_toString (z : ℤ) : integer? (toString z).toList = some z := by
  have hdigits (n : ℕ) :=
    integer?_of_digits (Nat.toDigits_ne_nil (n := n)) fun _ => isDigit_toDigits
  rw [Int.toString_eq_repr, Int.repr_eq_if]
  split
  · rename_i hz
    rw [Nat.toList_repr, (hdigits _).1, ofDigits_toDigits, Int.toNat_of_nonneg hz]
  · rename_i hz
    rw [String.toList_append, Nat.toList_repr]
    refine (hdigits _).2.trans ?_
    rw [ofDigits_toDigits, Int.toNat_of_nonneg (by omega), Int.neg_neg]

/-- What follows the sign of an integer are digits only. -/
theorem integer?_eq_none {cs : List Char} {c : Char} (hmem : c ∈ (splitSign cs).2)
    (hc : c.isDigit = false) : integer? cs = none := by
  have hall : (splitSign cs).2.all Char.isDigit = false := by
    rw [List.all_eq_false]
    exact ⟨c, hmem, by simp [hc]⟩
  rw [integer?]
  simp [hall]

/-! ### Floating-point numbers -/

/-- A text that starts with a digit is read as a decimal number, with either sign. -/
theorem real?_of_digit {c : Char} (hc : c.isDigit = true) (cs : List Char) :
    real? (c :: cs) = (decimal? (c :: cs)).map (Binary64.ofDecimal false) ∧
      real? ('-' :: c :: cs) = (decimal? (c :: cs)).map (Binary64.ofDecimal true) := by
  -- A digit has no case, so the three words start with something else.
  have hlower : c.toLower.isDigit = true := by
    delta Char.toLower
    split
    · rename_i h
      simp only [Char.isDigit, Bool.and_eq_true, decide_eq_true_eq] at hc
      have hlow : 65 ≤ c.val.toNat := UInt32.le_iff_toNat_le.mp h.1
      have hhigh : c.val.toNat ≤ 57 := UInt32.le_iff_toNat_le.mp hc.2
      omega
    · exact hc
  have hword : ∀ {w : List Char}, w.head?.map Char.isDigit ≠ some true →
      c.toLower :: cs.map Char.toLower ≠ w := by
    rintro w hw rfl
    exact hw (congrArg some hlower)
  have hinf := hword (w := "inf".toList) (by decide)
  have hinfinity := hword (w := "infinity".toList) (by decide)
  have hnan := hword (w := "nan".toList) (by decide)
  constructor
  · rw [real?, splitSign_of_digit hc]
    simp only [List.map_cons, hinf, hinfinity, hnan, or_self, ↓reduceIte]
  · rw [real?, splitSign]
    simp only [List.map_cons, hinf, hinfinity, hnan, or_self, ↓reduceIte]

end SmallLisp.Numeral
