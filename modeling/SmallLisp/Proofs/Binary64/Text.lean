import SmallLisp.Binary64.Text
import SmallLisp.Proofs.Binary64.Rounding
import SmallLisp.Proofs.Numeral
import SmallLisp.Proofs.Token

/-!
# Texts of binary64 numbers read back

`real?_text`: the text of a binary64 number, read as a floating-point number, is that number.  A
decimal number loses the zeros at the end of its coefficient when it is written
(`Decimal.trimmed`), and may get others when it is written out; neither changes the number
(`ofDecimal_scaled`), so it is enough to follow the digits through the two layouts
(`decimal?_scientific`, `decimal?_positional_of_neg`, `decimal?_positional_of_nonneg`).

The text is never that of an integer (`integer?_text`), because a point, an exponent or a letter is
in it, and it has none of the characters that tokens end at (`isWord_text`).
-/

namespace SmallLisp

open Numeral

namespace Decimal

/-! ### The digits that are written -/

theorem exists_toDigits_eq (d : Decimal) :
    ∃ k, Nat.toDigits 10 d.coefficient = d.digits ++ List.replicate k '0' := by
  set zeros := (Nat.toDigits 10 d.coefficient).reverse.takeWhile (· == '0') with hzeros
  refine ⟨zeros.length, ?_⟩
  have hall : zeros = List.replicate zeros.length '0' := by
    rw [List.eq_replicate_iff]
    exact ⟨rfl, fun c hc => by simpa using List.mem_takeWhile_imp hc⟩
  rw [← List.reverse_reverse (Nat.toDigits 10 d.coefficient),
    ← List.takeWhile_append_dropWhile (p := (· == '0'))
      (l := (Nat.toDigits 10 d.coefficient).reverse),
    List.reverse_append, ← hzeros, hall, List.reverse_replicate, List.length_replicate]
  rfl

theorem isDigit_digits {d : Decimal} {c : Char} (h : c ∈ d.digits) : c.isDigit = true := by
  obtain ⟨k, hk⟩ := exists_toDigits_eq d
  apply isDigit_toDigits
  rw [hk]
  exact List.mem_append_left _ h

theorem digits_ne_nil {d : Decimal} (h : d.coefficient ≠ 0) : d.digits ≠ [] := by
  intro hnil
  obtain ⟨k, hk⟩ := exists_toDigits_eq d
  have hval := ofDigits_toDigits d.coefficient
  rw [hk, hnil, List.nil_append, ofDigits_replicate_zero] at hval
  exact h hval.symm

/-- The decimal number without the zeros at the end of its coefficient. -/
def trimmed (d : Decimal) : Decimal := ⟨ofDigits d.digits, d.leading + 1 - d.digits.length⟩

theorem exists_trimmed_scaled (d : Decimal) : ∃ k, d = d.trimmed.scaled k := by
  obtain ⟨k, hk⟩ := exists_toDigits_eq d
  refine ⟨k, ?_⟩
  have hval := ofDigits_toDigits d.coefficient
  have hlen : decimalLength d.coefficient = d.digits.length + k := by
    rw [decimalLength, hk, List.length_append, List.length_replicate]
  rw [hk, ofDigits_append, ofDigits_replicate_zero, List.length_replicate, Nat.add_zero] at hval
  obtain ⟨c, e⟩ := d
  simp only [scaled, trimmed, leading, hlen, mk.injEq]
  exact ⟨hval.symm, by omega⟩

/-! ### The two layouts -/

theorem exponent?_toString (z : ℤ) : exponent? ('e' :: (toString z).toList) = some z := by
  rw [exponent?, if_pos (Or.inl rfl), integer?_toString]

/-- Digits, a fraction and an exponent are read as what they stand for. -/
theorem decimal?_append {ds fraction tail : List Char} {z : ℤ} (hne : ds ≠ [])
    (hds : ∀ c ∈ ds, c.isDigit = true) (hf : ∀ c ∈ fraction, c.isDigit = true)
    (htail : ∀ c ∈ tail.head?, c.isDigit = false) (hz : exponent? tail = some z) :
    decimal? (ds ++ '.' :: (fraction ++ tail))
      = some ⟨ofDigits (ds ++ fraction), z - fraction.length⟩ := by
  have hnot : ds.isEmpty = false := by simpa using hne
  rw [decimal?, splitDigits_append hds (by simp)]
  simp only [splitFraction, splitDigits_append hf htail, hnot, Bool.false_and, Bool.false_eq_true,
    ↓reduceIte, hz]
  rfl

theorem decimal?_scientific {ds : List Char} (hne : ds ≠ []) (hds : ∀ c ∈ ds, c.isDigit = true)
    (z : ℤ) : decimal? (scientific ds z).toList = some ⟨ofDigits ds, z + 1 - ds.length⟩ := by
  rcases ds with _ | ⟨c, _ | ⟨c', cs⟩⟩
  · exact absurd rfl hne
  · -- One digit has no fraction.
    have htoList : (scientific [c] z).toList = [c] ++ 'e' :: (toString z).toList := by
      simp [scientific]
    have hexponent := exponent?_toString z
    rw [Int.toString_eq_repr] at hexponent htoList
    rw [htoList, decimal?, splitDigits_append hds (by simp)]
    simp [splitFraction, hexponent]
  · have htoList : (scientific (c :: c' :: cs) z).toList
        = [c] ++ '.' :: (c' :: cs ++ 'e' :: (toString z).toList) := by
      simp [scientific]
    have hfirst : ∀ d ∈ [c], d.isDigit = true := by simpa using hds c (by simp)
    have hfraction : ∀ d ∈ c' :: cs, d.isDigit = true := by
      intro d hd
      exact hds d (List.mem_cons_of_mem _ hd)
    rw [htoList, decimal?_append (by simp) hfirst hfraction (by simp) (exponent?_toString z)]
    simp only [List.singleton_append, List.length_cons, Option.some.injEq, mk.injEq, true_and]
    omega

theorem isDigit_replicate_zero {k : ℕ} {c : Char} (h : c ∈ List.replicate k '0') :
    c.isDigit = true := by
  rw [(List.mem_replicate.mp h).2]
  rfl

/-- A number below one is written out with zeros before its digits. -/
theorem decimal?_positional_of_neg {ds : List Char} (hds : ∀ c ∈ ds, c.isDigit = true) {z : ℤ}
    (hz : z < 0) :
    decimal? (positional ds z).toList = some ⟨ofDigits ds, z + 1 - ds.length⟩ := by
  have htoList : (positional ds z).toList
      = ['0'] ++ '.' :: (List.replicate (-z - 1).toNat '0' ++ ds ++ []) := by
    simp [positional, hz]
  have hall : ∀ c ∈ List.replicate (-z - 1).toNat '0' ++ ds, c.isDigit = true := by
    intro c hc
    rcases List.mem_append.mp hc with hc | hc
    · exact isDigit_replicate_zero hc
    · exact hds c hc
  rw [htoList, decimal?_append (z := 0) (by simp) (by simp) hall (by simp) rfl]
  simp only [ofDigits_append, ofDigits_replicate_zero, List.length_append, List.length_replicate,
    Option.some.injEq, mk.injEq]
  constructor
  · simp [ofDigits]
  · omega

/-- A number from one on is written out with zeros behind its digits if these end before the
point. -/
theorem decimal?_positional_of_nonneg {ds : List Char} (hne : ds ≠ [])
    (hds : ∀ c ∈ ds, c.isDigit = true) {z : ℤ} (hz : ¬z < 0) :
    ∃ k, decimal? (positional ds z).toList = some (scaled ⟨ofDigits ds, z + 1 - ds.length⟩ k) := by
  set before := ds.take (z.toNat + 1) ++ List.replicate (z.toNat + 1 - ds.length) '0' with hbefore
  have hne' : before ≠ [] := by simp [hbefore, hne]
  have hall : ∀ c ∈ before, c.isDigit = true := by
    intro c hc
    rcases List.mem_append.mp hc with hc | hc
    · exact hds c (List.mem_of_mem_take hc)
    · exact isDigit_replicate_zero hc
  unfold positional
  rw [if_neg hz]
  dsimp only
  rw [← hbefore, String.toList_ofList]
  rcases hdrop : ds.drop (z.toNat + 1) with _ | ⟨c, cs⟩
  · -- All digits stand before the point, and the fraction is a zero.
    have hlen : ds.length ≤ z.toNat + 1 := List.drop_eq_nil_iff.mp hdrop
    have hread : decimal? (before ++ '.' :: (['0'] ++ []))
        = some ⟨ofDigits (before ++ ['0']), 0 - (['0'].length : ℤ)⟩ :=
      decimal?_append hne' hall (by simp) (by simp) rfl
    refine ⟨z.toNat + 1 - ds.length + 1, hread.trans ?_⟩
    rw [hbefore, List.take_of_length_le hlen]
    simp only [scaled, ofDigits_append, ofDigits_replicate_zero, List.length_replicate,
      List.length_singleton, Option.some.injEq, mk.injEq]
    constructor
    · simp [ofDigits, pow_succ, Nat.mul_assoc]
    · omega
  · have hcs : ∀ d ∈ c :: cs, d.isDigit = true := fun d hd =>
      hds d (List.mem_of_mem_drop (hdrop ▸ hd))
    have hlen : z.toNat + 1 < ds.length := by
      rw [← Nat.not_le, ← List.drop_eq_nil_iff, hdrop]
      exact List.cons_ne_nil _ _
    have hread : decimal? (before ++ '.' :: (c :: cs ++ []))
        = some ⟨ofDigits (before ++ c :: cs), 0 - ((c :: cs).length : ℤ)⟩ :=
      decimal?_append hne' hall hcs (by simp) rfl
    rw [List.append_nil] at hread
    refine ⟨0, hread.trans ?_⟩
    rw [hbefore, Nat.sub_eq_zero_of_le hlen.le, List.replicate_zero, List.append_nil, ← hdrop,
      List.take_append_drop, List.length_drop]
    simp only [scaled, pow_zero, Nat.mul_one, Option.some.injEq, mk.injEq, true_and]
    omega

/-- The text of a decimal number is read as the same number. -/
theorem exists_decimal?_text {d : Decimal} (h : d.coefficient ≠ 0) (layout : Layout) :
    ∃ k, decimal? (d.text layout).toList = some (d.trimmed.scaled k) := by
  have hne := digits_ne_nil h
  have hds : ∀ c ∈ d.digits, c.isDigit = true := fun _ => isDigit_digits
  unfold text
  split_ifs
  · by_cases hz : d.leading < 0
    · refine ⟨0, ?_⟩
      rw [decimal?_positional_of_neg hds hz]
      simp [scaled, trimmed]
    · exact decimal?_positional_of_nonneg hne hds hz
  · refine ⟨0, ?_⟩
    rw [decimal?_scientific hne hds]
    simp [scaled, trimmed]

/-! ### The characters that are written -/

theorem isWordChar_of_isDigit {c : Char} (h : c.isDigit = true) : isWordChar c = true := by
  rw [isWordChar, Bool.not_eq_true', ← Bool.not_eq_true, List.contains_iff_mem]
  intro hmem
  simp only [breaks, parens, blanks, List.mem_append, List.mem_cons, List.not_mem_nil] at hmem
  rcases hmem with (rfl | rfl | h') | (rfl | rfl | rfl | rfl | h') <;> simp_all

/-- A digit and then, among characters of words, something that is no digit. -/
def IsUnsigned (cs : List Char) : Prop :=
  ∃ c rest, cs = c :: rest ∧ c.isDigit = true ∧ (∃ b ∈ rest, b.isDigit = false) ∧
    ∀ a ∈ rest, isWordChar a = true

theorem isWordChar_toString {z : ℤ} {a : Char} (h : a ∈ (toString z).toList) :
    isWordChar a = true := by
  rw [Int.toString_eq_repr, Int.repr_eq_if] at h
  split at h
  · rw [Nat.toList_repr] at h
    exact isWordChar_of_isDigit (isDigit_toDigits h)
  · rw [String.toList_append, Nat.toList_repr] at h
    rcases List.mem_append.mp h with h | h
    · obtain rfl : a = '-' := by simpa using h
      decide
    · exact isWordChar_of_isDigit (isDigit_toDigits h)

theorem isUnsigned_append {ds rest : List Char} {b : Char} (hne : ds ≠ [])
    (hds : ∀ c ∈ ds, c.isDigit = true) (hb : b.isDigit = false) (hb' : isWordChar b = true)
    (hrest : ∀ a ∈ rest, isWordChar a = true) : IsUnsigned (ds ++ b :: rest) := by
  obtain ⟨c, cs, rfl⟩ := List.exists_cons_of_ne_nil hne
  refine ⟨c, cs ++ b :: rest, rfl, hds c (List.mem_cons_self ..), ⟨b, by simp, hb⟩, ?_⟩
  intro a ha
  rcases List.mem_append.mp ha with ha | ha
  · exact isWordChar_of_isDigit (hds a (List.mem_cons_of_mem _ ha))
  · rcases List.mem_cons.mp ha with rfl | ha
    · exact hb'
    · exact hrest a ha

theorem isUnsigned_scientific {ds : List Char} (hne : ds ≠ []) (hds : ∀ c ∈ ds, c.isDigit = true)
    (z : ℤ) : IsUnsigned (scientific ds z).toList := by
  rcases ds with _ | ⟨c, _ | ⟨c', cs⟩⟩
  · exact absurd rfl hne
  · have htoList : (scientific [c] z).toList = [c] ++ 'e' :: (toString z).toList := by
      simp [scientific]
    rw [htoList]
    exact isUnsigned_append hne hds (by decide) (by decide) fun _ => isWordChar_toString
  · have htoList : (scientific (c :: c' :: cs) z).toList
        = [c] ++ '.' :: (c' :: cs ++ 'e' :: (toString z).toList) := by
      simp [scientific]
    rw [htoList]
    refine isUnsigned_append (by simp) (by simpa using hds c (by simp)) (by decide) (by decide) ?_
    intro a ha
    rcases List.mem_append.mp ha with ha | ha
    · exact isWordChar_of_isDigit (hds a (List.mem_cons_of_mem _ ha))
    · rcases List.mem_cons.mp ha with rfl | ha
      · decide
      · exact isWordChar_toString ha

theorem isUnsigned_positional {ds : List Char} (hne : ds ≠ []) (hds : ∀ c ∈ ds, c.isDigit = true)
    (z : ℤ) : IsUnsigned (positional ds z).toList := by
  unfold positional
  split_ifs with hz
  · have htoList : ("0." ++ String.ofList (List.replicate (-z - 1).toNat '0' ++ ds)).toList
        = ['0'] ++ '.' :: (List.replicate (-z - 1).toNat '0' ++ ds) := by
      simp
    rw [htoList]
    refine isUnsigned_append (by simp) (by simp) (by decide) (by decide) ?_
    intro a ha
    rcases List.mem_append.mp ha with ha | ha
    · exact isWordChar_of_isDigit (isDigit_replicate_zero ha)
    · exact isWordChar_of_isDigit (hds a ha)
  · rw [String.toList_ofList]
    refine isUnsigned_append (by simp [hne]) ?_ (by decide) (by decide) ?_
    · intro a ha
      rcases List.mem_append.mp ha with ha | ha
      · exact hds a (List.mem_of_mem_take ha)
      · exact isDigit_replicate_zero ha
    · intro a ha
      split at ha
      · obtain rfl : a = '0' := by simpa using ha
        decide
      · exact isWordChar_of_isDigit (hds a (List.mem_of_mem_drop ha))

theorem isUnsigned_text {d : Decimal} (h : d.coefficient ≠ 0) (layout : Layout) :
    IsUnsigned (d.text layout).toList := by
  have hds : ∀ c ∈ d.digits, c.isDigit = true := fun _ => isDigit_digits
  unfold text
  split_ifs
  · exact isUnsigned_positional (digits_ne_nil h) hds d.leading
  · exact isUnsigned_scientific (digits_ne_nil h) hds d.leading

end Decimal

/-! ### Numbers -/

namespace Binary64

/-- The text of a magnitude: unsigned, and read as a decimal number nearest to it. -/
theorem exists_decimal?_magnitude (m : Magnitude) :
    Decimal.IsUnsigned (if m.quanta = 0 then "0.0" else m.shortest.text .standard).toList ∧
      ∃ d, decimal? (if m.quanta = 0 then "0.0" else m.shortest.text .standard).toList = some d ∧
        ∀ negative, ofDecimal negative d = finite negative m := by
  split_ifs with hm
  · refine ⟨⟨'0', ['.', '0'], rfl, rfl, ⟨'.', by simp, rfl⟩, ?_⟩, ⟨0, -1⟩, rfl, ?_⟩
    · exact List.all_eq_true.1 (by decide)
    · intro negative
      obtain ⟨k, hk⟩ := m
      obtain rfl : k = 0 := hm
      rfl
  · have hcoefficient := Magnitude.coefficient_shortest_ne_zero hm
    obtain ⟨k, hk⟩ := Decimal.exists_decimal?_text hcoefficient .standard
    obtain ⟨k', hk'⟩ := Decimal.exists_trimmed_scaled m.shortest
    refine ⟨Decimal.isUnsigned_text hcoefficient .standard, _, hk, fun negative => ?_⟩
    rw [ofDecimal_scaled, ← ofDecimal_scaled negative _ k', ← hk', Magnitude.ofDecimal_shortest hm]

/-- **Numbers read back**: the text of a number is read as that number. -/
theorem real?_text (x : Binary64) : real? x.text.toList = some x := by
  cases x with
  | nan => decide +kernel
  | infinity s => cases s <;> decide +kernel
  | finite s m =>
    obtain ⟨⟨c, rest, hcs, hc, -⟩, d, hd, hround⟩ := exists_decimal?_magnitude m
    obtain ⟨hpos, hneg⟩ := real?_of_digit hc rest
    rw [hcs] at hd
    rw [text, textWith, String.toList_append, hcs]
    rw [hd, Option.map_some, hround] at hpos hneg
    cases s with
    | false => exact hpos
    | true => exact hneg

/-- The text of a number is no integer. -/
theorem integer?_text (x : Binary64) : integer? x.text.toList = none := by
  cases x with
  | nan => decide +kernel
  | infinity s => cases s <;> decide +kernel
  | finite s m =>
    obtain ⟨⟨c, rest, hcs, hc, ⟨b, hb, hb'⟩, -⟩, -⟩ := exists_decimal?_magnitude m
    rw [text, textWith, String.toList_append, hcs]
    refine integer?_eq_none (c := b) ?_ hb'
    cases s with
    | false =>
      show b ∈ (splitSign (c :: rest)).2
      rw [splitSign_of_digit hc]
      exact List.mem_cons_of_mem _ hb
    | true => exact List.mem_cons_of_mem _ hb

/-- The text of a number is a word. -/
theorem isWord_text (x : Binary64) : IsWord x.text.toList := by
  cases x with
  | nan => exact isWord_of_all (by decide) (by decide +kernel)
  | infinity s => cases s <;> exact isWord_of_all (by decide) (by decide +kernel)
  | finite s m =>
    obtain ⟨⟨c, rest, hcs, hc, -, hrest⟩, -⟩ := exists_decimal?_magnitude m
    rw [text, textWith, String.toList_append, hcs]
    refine ⟨by simp, fun a ha => ?_⟩
    rcases List.mem_append.mp ha with ha | ha
    · cases s
      · simp [signText] at ha
      · obtain rfl : a = '-' := by simpa [signText] using ha
        decide
    · rcases List.mem_cons.mp ha with rfl | ha
      · exact Decimal.isWordChar_of_isDigit hc
      · exact hrest a ha

end Binary64

end SmallLisp
