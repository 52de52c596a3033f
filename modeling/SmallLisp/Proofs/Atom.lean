import Mathlib.Computability.Language
import Mathlib.Data.List.Induction
import Mathlib.Data.Nat.Digits.Defs
import SmallLisp.Proofs.RoundTrip

/-!
# Kinds of atoms

Which tokens are integers, which are floating-point numbers and which are symbols, told by two
regular languages: `integerText` and `realText`, the second of which is matched whatever the case of
the letters.  An integer has a text of the first kind whose value has 64 bits; of all other tokens
those with a text of the second kind are floating-point numbers, and the rest are symbols
(`atom_kinds`).

The numerals are read from the left: a sign, digits, a point with digits, an exponent.  Each of
these steps takes off what the language has in its place (`mem_signed_iff`, `mem_digits_iff`), since
what comes next never starts like it.  Case is settled by the language itself: ignoring it goes
through unions and products (`ignoringCase_mul`) and only letters are changed by it, so that the
exponent is all that remains of it (`ignoringCase_decimalText`).
-/

namespace SmallLisp

open scoped Computability

namespace Numeral

/-! ### Grammar -/

/-- A text and no other. -/
def exactly (text : String) : Language Char := {text.toList}

/-- Something or nothing. -/
def optional (L : Language Char) : Language Char := 1 + L

def digit : Language Char := {cs | ∃ c, c.isDigit = true ∧ cs = [c]}

/-- One or more digits. -/
def digits : Language Char := digit * digit∗

def sign : Language Char := exactly "+" + exactly "-"

/-- Digits with an optional sign. -/
def integerText : Language Char := optional sign * digits

/-- Digits with an optional point among or around them. -/
def mantissa : Language Char :=
  digits + digits * exactly "." * digit∗ + digit∗ * exactly "." * digits

/-- A decimal number without a sign: a mantissa with an optional exponent. -/
def decimalText : Language Char :=
  mantissa * optional (exactly "e" * (optional sign * digits))

/-- A floating-point number in small letters. -/
def realText : Language Char :=
  optional sign * (exactly "inf" + exactly "infinity" + exactly "nan" + decimalText)

/-- A language whatever the case of the letters. -/
def ignoringCase (L : Language Char) : Language Char := {cs | cs.map Char.toLower ∈ L}

/-- The number that digits stand for to base ten. -/
def digitsValue (ds : List Char) : ℕ :=
  Nat.ofDigits 10 (ds.reverse.map fun c => c.toNat - '0'.toNat)

/-- The number that digits with an optional sign stand for. -/
def integerValue (cs : List Char) : ℤ :=
  (if cs.head? = some '-' then -1 else 1) * digitsValue (cs.filter Char.isDigit)

variable {cs : List Char} {L M : Language Char}

theorem mem_exactly_iff {text : String} : cs ∈ exactly text ↔ cs = text.toList := Iff.rfl

theorem mem_optional_iff : cs ∈ optional L ↔ cs = [] ∨ cs ∈ L := by
  rw [optional, Language.mem_add, Language.mem_one]

theorem mem_kstar_digit_iff : cs ∈ digit∗ ↔ ∀ c ∈ cs, c.isDigit = true := by
  rw [Language.mem_kstar]
  constructor
  · rintro ⟨pieces, rfl, hpieces⟩ c hc
    obtain ⟨piece, hpiece, hc⟩ := List.mem_flatten.1 hc
    obtain ⟨d, hd, rfl⟩ := hpieces piece hpiece
    rwa [List.mem_singleton.1 hc]
  · intro hall
    refine ⟨cs.map fun c => [c], ?_, ?_⟩
    · rw [← List.flatMap_def, List.flatMap_singleton']
    · rintro piece hpiece
      obtain ⟨c, hc, rfl⟩ := List.mem_map.1 hpiece
      exact ⟨c, hall c hc, rfl⟩

theorem mem_digits_iff : cs ∈ digits ↔ cs ≠ [] ∧ ∀ c ∈ cs, c.isDigit = true := by
  rw [digits, Language.mem_mul]
  constructor
  · rintro ⟨_, ⟨c, hc, rfl⟩, ds, hds, rfl⟩
    rw [mem_kstar_digit_iff] at hds
    exact ⟨List.cons_ne_nil _ _, List.forall_mem_cons.2 ⟨hc, hds⟩⟩
  · rintro ⟨hne, hall⟩
    obtain ⟨c, ds, rfl⟩ := List.exists_cons_of_ne_nil hne
    obtain ⟨hc, hds⟩ := List.forall_mem_cons.1 hall
    exact ⟨[c], ⟨c, hc, rfl⟩, ds, mem_kstar_digit_iff.2 hds, rfl⟩

/-! ### Signs -/

/-- Whether no text of a language starts with a sign. -/
def Unsigned (L : Language Char) : Prop := ∀ cs ∈ L, ∀ c ∈ cs.head?, c ≠ '+' ∧ c ≠ '-'

/-- A sign is taken off a text whose rest is not to start with one. -/
theorem mem_signed_iff (hL : Unsigned L) : cs ∈ optional sign * L ↔ (splitSign cs).2 ∈ L := by
  have hsigned : cs ∈ optional sign * L ↔
      cs ∈ L ∨ ∃ rest ∈ L, cs = '+' :: rest ∨ cs = '-' :: rest := by
    rw [Language.mem_mul]
    constructor
    · rintro ⟨s, hs, rest, hrest, rfl⟩
      rcases mem_optional_iff.1 hs with rfl | rfl | rfl
      · exact Or.inl hrest
      · exact Or.inr ⟨rest, hrest, Or.inl rfl⟩
      · exact Or.inr ⟨rest, hrest, Or.inr rfl⟩
    · rintro (h | ⟨rest, hrest, rfl | rfl⟩)
      · exact ⟨[], mem_optional_iff.2 (Or.inl rfl), cs, h, rfl⟩
      · exact ⟨['+'], mem_optional_iff.2 (Or.inr (Or.inl rfl)), rest, hrest, rfl⟩
      · exact ⟨['-'], mem_optional_iff.2 (Or.inr (Or.inr rfl)), rest, hrest, rfl⟩
  rw [hsigned]
  unfold splitSign
  split
  · rename_i rest
    have hnot : '-' :: rest ∉ L := fun h => (hL _ h '-' rfl).2 rfl
    simp [hnot]
  · rename_i rest
    have hnot : '+' :: rest ∉ L := fun h => (hL _ h '+' rfl).1 rfl
    simp [hnot]
  · rename_i hminus hplus
    refine or_iff_left ?_
    rintro ⟨rest, -, rfl | rfl⟩
    · exact hplus rest rfl
    · exact hminus rest rfl

theorem not_sign_of_isDigit {c : Char} (hc : c.isDigit = true) : c ≠ '+' ∧ c ≠ '-' := by
  constructor <;> rintro rfl <;> cases hc

theorem unsigned_digits : Unsigned digits := by
  intro cs hcs c hc
  exact not_sign_of_isDigit ((mem_digits_iff.1 hcs).2 c (List.mem_of_mem_head? hc))

/-! ### Integers -/

theorem ofDigits_eq (ds : List Char) : ofDigits ds = digitsValue ds := by
  unfold digitsValue
  induction ds using List.reverseRecOn with
  | nil => rfl
  | append_singleton ds d ih =>
    have hlast : ofDigits (ds ++ [d]) = 10 * ofDigits ds + (d.toNat - '0'.toNat) := by
      unfold ofDigits
      rw [List.foldl_append]
      rfl
    rw [hlast, ih, List.reverse_append, List.reverse_singleton, List.singleton_append,
      List.map_cons, Nat.ofDigits_cons, Nat.add_comm]

/-- The value of digits behind a sign. -/
theorem integerValue_eq (h : (splitSign cs).2 ∈ digits) :
    integerValue cs = if (splitSign cs).1 then -(ofDigits (splitSign cs).2 : ℤ)
      else ofDigits (splitSign cs).2 := by
  have hself {ds : List Char} (hds : ds ∈ digits) : ds.filter Char.isDigit = ds :=
    List.filter_eq_self.2 (mem_digits_iff.1 hds).2
  unfold integerValue
  revert h
  unfold splitSign
  split
  · intro h
    rw [List.filter_cons_of_neg (by decide), hself h, ofDigits_eq]
    simp
  · intro h
    rw [List.filter_cons_of_neg (by decide), hself h, ofDigits_eq]
    simp
  · rename_i hminus hplus
    intro h
    have hhead : cs.head? ≠ some '-' := by
      intro hhead
      obtain ⟨rest, rfl⟩ := List.head?_eq_some_iff.1 hhead
      exact hminus rest rfl
    rw [hself h, ofDigits_eq, if_neg hhead]
    simp

/-- The integers are read from their texts and from nothing else. -/
theorem integer?_eq_some_iff {z : ℤ} :
    integer? cs = some z ↔ cs ∈ integerText ∧ integerValue cs = z := by
  rw [integerText, mem_signed_iff unsigned_digits]
  by_cases h : (splitSign cs).2 ∈ digits
  · have htest : ((splitSign cs).2.isEmpty || !(splitSign cs).2.all Char.isDigit) = false := by
      obtain ⟨hne, hall⟩ := mem_digits_iff.1 h
      rw [List.all_eq_true.2 hall]
      simpa using hne
    rw [integerValue_eq h, integer?]
    simp [htest, h]
  · have htest : ((splitSign cs).2.isEmpty || !(splitSign cs).2.all Char.isDigit) = true := by
      by_contra hfalse
      refine h (mem_digits_iff.2 ?_)
      simpa using hfalse
    rw [integer?]
    simp [htest, h]

theorem isSome_integer?_iff : (integer? cs).isSome = true ↔ cs ∈ integerText := by
  rw [Option.isSome_iff_exists]
  simp only [integer?_eq_some_iff]
  exact ⟨fun ⟨_, h, _⟩ => h, fun h => ⟨_, h, rfl⟩⟩

/-! ### Letter case -/

theorem toNat_toLower (c : Char) :
    c.toLower.toNat = if 65 ≤ c.toNat ∧ c.toNat ≤ 90 then c.toNat + 32 else c.toNat := by
  have hupper : (c.val ≥ 'A'.val ∧ c.val ≤ 'Z'.val) ↔ 65 ≤ c.toNat ∧ c.toNat ≤ 90 := by
    rw [ge_iff_le, UInt32.le_iff_toNat_le, UInt32.le_iff_toNat_le]
    rfl
  unfold Char.toLower
  split_ifs with h h' h'
  · have hsum : (c.val + 32).toNat = c.toNat + 32 := by
      rw [UInt32.toNat_add]
      show (c.toNat + 32) % 2 ^ 32 = _
      omega
    exact hsum
  · exact absurd (hupper.1 h) h'
  · exact absurd (hupper.2 h') h
  · rfl

/-- Only letters are changed when case is ignored. -/
theorem toLower_eq_iff {c d : Char} (hd : d.toNat < 65) : c.toLower = d ↔ c = d := by
  rw [← Char.toNat_inj, ← Char.toNat_inj, toNat_toLower]
  split_ifs <;> omega

theorem toLower_eq_e_iff {c : Char} : c.toLower = 'e' ↔ c = 'e' ∨ c = 'E' := by
  rw [← Char.toNat_inj, ← Char.toNat_inj, ← Char.toNat_inj, toNat_toLower]
  have he : 'e'.toNat = 101 := rfl
  have hE : 'E'.toNat = 69 := rfl
  split_ifs <;> omega

theorem isDigit_toLower (c : Char) : c.toLower.isDigit = c.isDigit := by
  have hzero : '0'.toNat = 48 := rfl
  have hnine : '9'.toNat = 57 := rfl
  rw [Bool.eq_iff_iff, Char.isDigit_iff_toNat, Char.isDigit_iff_toNat, toNat_toLower]
  split_ifs <;> omega

theorem ignoringCase_add : ignoringCase (L + M) = ignoringCase L + ignoringCase M := rfl

theorem ignoringCase_mul : ignoringCase (L * M) = ignoringCase L * ignoringCase M := by
  ext cs
  show cs.map Char.toLower ∈ L * M ↔ _
  rw [Language.mem_mul, Language.mem_mul]
  constructor
  · rintro ⟨a, ha, b, hb, hab⟩
    obtain ⟨a', b', rfl, rfl, rfl⟩ := List.map_eq_append_iff.1 hab.symm
    exact ⟨a', ha, b', hb, rfl⟩
  · rintro ⟨a, ha, b, hb, rfl⟩
    exact ⟨_, ha, _, hb, List.map_append.symm⟩

theorem ignoringCase_optional : ignoringCase (optional L) = optional (ignoringCase L) := by
  ext cs
  show cs.map Char.toLower ∈ optional L ↔ _
  rw [mem_optional_iff, mem_optional_iff, List.map_eq_nil_iff]
  rfl

theorem ignoringCase_char {d : Char} (hd : d.toNat < 65) :
    ignoringCase (exactly (String.ofList [d])) = exactly (String.ofList [d]) := by
  ext cs
  show cs.map Char.toLower ∈ exactly _ ↔ _
  rw [mem_exactly_iff, mem_exactly_iff, String.toList_ofList, List.map_eq_singleton_iff]
  simp only [toLower_eq_iff hd, exists_eq_right]

theorem ignoringCase_sign : ignoringCase sign = sign := by
  rw [sign, ignoringCase_add]
  exact congrArg₂ _ (ignoringCase_char (d := '+') (by decide))
    (ignoringCase_char (d := '-') (by decide))

theorem ignoringCase_kstar_digit : ignoringCase (digit∗) = digit∗ := by
  ext cs
  show cs.map Char.toLower ∈ digit∗ ↔ _
  simp only [mem_kstar_digit_iff, List.forall_mem_map, isDigit_toLower]

theorem ignoringCase_digits : ignoringCase digits = digits := by
  ext cs
  show cs.map Char.toLower ∈ digits ↔ _
  simp only [mem_digits_iff, ne_eq, List.map_eq_nil_iff, List.forall_mem_map, isDigit_toLower]

theorem ignoringCase_integerText : ignoringCase integerText = integerText := by
  rw [integerText, ignoringCase_mul, ignoringCase_optional, ignoringCase_sign, ignoringCase_digits]

theorem ignoringCase_mantissa : ignoringCase mantissa = mantissa := by
  have hpoint : ignoringCase (exactly ".") = exactly "." := ignoringCase_char (d := '.') (by decide)
  simp only [mantissa, ignoringCase_add, ignoringCase_mul, ignoringCase_digits,
    ignoringCase_kstar_digit, hpoint]

/-! ### Decimal numbers -/

/-- What is behind the mantissa of a decimal number. -/
def exponentText : Language Char := optional (ignoringCase (exactly "e") * integerText)

theorem ignoringCase_decimalText : ignoringCase decimalText = mantissa * exponentText := by
  rw [decimalText, ignoringCase_mul, ignoringCase_mantissa, ignoringCase_optional, ignoringCase_mul,
    ← integerText, ignoringCase_integerText]
  rfl

theorem isSome_exponent?_iff : (exponent? cs).isSome = true ↔ cs ∈ exponentText := by
  rw [exponentText, mem_optional_iff, Language.mem_mul]
  have he {c : Char} : [c] ∈ ignoringCase (exactly "e") ↔ c = 'e' ∨ c = 'E' := by
    rw [← toLower_eq_e_iff]
    exact List.singleton_inj
  rcases cs with _ | ⟨c, rest⟩
  · simp [exponent?]
  · have hproduct : (∃ a ∈ ignoringCase (exactly "e"), ∃ b ∈ integerText, a ++ b = c :: rest) ↔
        (c = 'e' ∨ c = 'E') ∧ rest ∈ integerText := by
      constructor
      · rintro ⟨a, ha, b, hb, hab⟩
        obtain ⟨d, rfl, -⟩ := List.map_eq_singleton_iff.1 ha
        obtain ⟨rfl, rfl⟩ := List.cons.inj hab
        exact ⟨he.1 ha, hb⟩
      · rintro ⟨hc, hrest⟩
        exact ⟨[c], he.2 hc, rest, hrest, rfl⟩
    rw [hproduct, exponent?]
    split_ifs with hc
    · simp [hc, isSome_integer?_iff]
    · simp [hc]

/-- What starts an exponent can stand neither before nor among digits. -/
theorem head?_of_mem_exponentText (h : cs ∈ exponentText) :
    ∀ c ∈ cs.head?, c.isDigit = false ∧ c ≠ '.' := by
  rintro c hc
  rcases cs with _ | ⟨d, rest⟩
  · cases hc
  · obtain rfl := Option.some.inj hc
    have hsome := isSome_exponent?_iff.2 h
    rw [exponent?] at hsome
    split_ifs at hsome with he
    · rcases he with rfl | rfl <;> decide
    · cases hsome

theorem splitFraction_of_ne (h : ∀ c ∈ cs.head?, c ≠ '.') : splitFraction cs = ([], cs) := by
  unfold splitFraction
  split
  · exact absurd rfl (h '.' rfl)
  · rfl

/-- A mantissa has digits on one side of the point at least, or digits and no point. -/
theorem mem_mantissa_iff : cs ∈ mantissa ↔ ∃ whole fraction : List Char,
    (∀ c ∈ whole ++ fraction, c.isDigit = true) ∧ whole ++ fraction ≠ [] ∧
      (cs = whole ++ '.' :: fraction ∨ fraction = [] ∧ cs = whole) := by
  simp only [mantissa, Language.mem_add, Language.mem_mul, mem_digits_iff, mem_kstar_digit_iff,
    mem_exactly_iff, List.forall_mem_append]
  constructor
  · rintro ((⟨hne, hall⟩ | ⟨_, ⟨whole, ⟨hne, hall⟩, _, rfl, rfl⟩, fraction, hall', rfl⟩) |
      ⟨_, ⟨whole, hall, _, rfl, rfl⟩, fraction, ⟨hne, hall'⟩, rfl⟩)
    · exact ⟨cs, [], ⟨hall, by simp⟩, by simpa using hne, Or.inr ⟨rfl, rfl⟩⟩
    · exact ⟨whole, fraction, ⟨hall, hall'⟩, by simp [hne], Or.inl (by simp)⟩
    · exact ⟨whole, fraction, ⟨hall, hall'⟩, by simp [hne], Or.inl (by simp)⟩
  · rintro ⟨whole, fraction, ⟨hall, hall'⟩, hne, rfl | ⟨rfl, rfl⟩⟩
    · by_cases hwhole : whole = []
      · have hfraction : fraction ≠ [] := by simpa [hwhole] using hne
        exact Or.inr ⟨_, ⟨whole, hall, _, rfl, rfl⟩, fraction, ⟨hfraction, hall'⟩, by simp⟩
      · exact Or.inl (Or.inr ⟨_, ⟨whole, ⟨hwhole, hall⟩, _, rfl, rfl⟩, fraction, hall', by simp⟩)
    · exact Or.inl (Or.inl ⟨by simpa using hne, hall⟩)

theorem mem_takeWhile_isDigit : ∀ c ∈ cs.takeWhile Char.isDigit, c.isDigit = true :=
  fun _ => List.mem_takeWhile_imp

/-- A decimal number is read if digits and an exponent are found in it. -/
theorem isSome_decimal?_iff_split {whole fraction rest rest' : List Char}
    (hwhole : splitDigits cs = (whole, rest)) (hfraction : splitFraction rest = (fraction, rest')) :
    (decimal? cs).isSome = true ↔ whole ++ fraction ≠ [] ∧ rest' ∈ exponentText := by
  rw [decimal?, hwhole]
  simp only [hfraction, ← isSome_exponent?_iff, ne_eq, List.append_eq_nil_iff]
  by_cases hempty : whole = [] ∧ fraction = []
  · simp [hempty]
  · have htest : (whole.isEmpty && fraction.isEmpty) = false := by simpa using hempty
    rw [htest]
    cases exponent? rest' <;> simp [hempty]

/-- Decimal numbers are read from their texts and from nothing else. -/
theorem isSome_decimal?_iff :
    (decimal? cs).isSome = true ↔ cs ∈ ignoringCase decimalText := by
  rw [ignoringCase_decimalText, Language.mem_mul]
  constructor
  · -- What the splits take off are the parts of the number.
    intro hsome
    have hparts : cs = cs.takeWhile Char.isDigit ++ cs.dropWhile Char.isDigit :=
      List.takeWhile_append_dropWhile.symm
    by_cases hpoint : ∃ rest, cs.dropWhile Char.isDigit = '.' :: rest
    · obtain ⟨rest, hrest⟩ := hpoint
      have hsplit : splitFraction (cs.dropWhile Char.isDigit)
          = (rest.takeWhile Char.isDigit, rest.dropWhile Char.isDigit) := by
        rw [hrest]
        rfl
      obtain ⟨hne, he⟩ := (isSome_decimal?_iff_split rfl hsplit).1 hsome
      refine ⟨_, mem_mantissa_iff.2 ⟨_, _, ?_, hne, Or.inl rfl⟩, _, he, ?_⟩
      · rw [List.forall_mem_append]
        exact ⟨mem_takeWhile_isDigit, mem_takeWhile_isDigit⟩
      · conv_rhs => rw [hparts, hrest]
        simp
    · have hnone : splitFraction (cs.dropWhile Char.isDigit) = ([], cs.dropWhile Char.isDigit) := by
        refine splitFraction_of_ne fun c hc hdot => hpoint ?_
        obtain ⟨rest, hrest⟩ := List.head?_eq_some_iff.1 hc
        exact ⟨rest, by rw [hrest, hdot]⟩
      obtain ⟨hne, he⟩ := (isSome_decimal?_iff_split rfl hnone).1 hsome
      refine ⟨_, mem_mantissa_iff.2 ⟨_, [], ?_, hne, Or.inr ⟨rfl, rfl⟩⟩, _, he, hparts.symm⟩
      rw [List.append_nil]
      exact mem_takeWhile_isDigit
  · rintro ⟨m, hm, e, he, rfl⟩
    have hhead := head?_of_mem_exponentText he
    have hdigit : ∀ c ∈ e.head?, c.isDigit = false := fun c hc => (hhead c hc).1
    have hdot : ∀ c ∈ e.head?, c ≠ '.' := fun c hc => (hhead c hc).2
    obtain ⟨whole, fraction, hall, hne, rfl | ⟨rfl, rfl⟩⟩ := mem_mantissa_iff.1 hm
    · rw [List.forall_mem_append] at hall
      have hwhole : splitDigits (whole ++ '.' :: fraction ++ e)
          = (whole, '.' :: (fraction ++ e)) := by
        rw [List.append_assoc, List.cons_append]
        exact splitDigits_append hall.1 (by simp)
      have hfraction : splitFraction ('.' :: (fraction ++ e)) = (fraction, e) :=
        splitDigits_append hall.2 hdigit
      exact (isSome_decimal?_iff_split hwhole hfraction).2 ⟨hne, he⟩
    · rw [List.append_nil] at hall
      exact (isSome_decimal?_iff_split (splitDigits_append hall hdigit)
        (splitFraction_of_ne hdot)).2 ⟨hne, he⟩

/-! ### Floating-point numbers -/

theorem Unsigned.ignoringCase (hL : Unsigned L) : Unsigned (ignoringCase L) := by
  intro cs hcs c hc
  have hlower := hL _ hcs c.toLower (by rw [List.head?_map, hc]; rfl)
  constructor <;> rintro rfl
  · exact hlower.1 rfl
  · exact hlower.2 rfl

theorem unsigned_decimalText : Unsigned decimalText := by
  rintro _ ⟨m, hm, e, -, rfl⟩ c hc
  obtain ⟨whole, fraction, hall, hne, hm⟩ := mem_mantissa_iff.1 hm
  rcases whole with _ | ⟨d, whole⟩
  · -- The point comes first.
    rcases hm with rfl | ⟨rfl, rfl⟩
    · obtain rfl := Option.some.inj hc
      decide
    · exact absurd rfl hne
  · have hd := not_sign_of_isDigit (hall d (List.mem_cons_self ..))
    rcases hm with rfl | ⟨rfl, rfl⟩
    · rwa [← Option.some.inj hc]
    · rwa [← Option.some.inj hc]

/-- Floating-point numbers are read from their texts and from nothing else. -/
theorem isSome_real?_iff : (real? cs).isSome = true ↔ cs ∈ ignoringCase realText := by
  have hunsigned : Unsigned (exactly "inf" + exactly "infinity" + exactly "nan" + decimalText) := by
    rintro cs (((rfl | rfl) | rfl) | hcs)
    · rintro c ⟨⟩
      decide
    · rintro c ⟨⟩
      decide
    · rintro c ⟨⟩
      decide
    · exact unsigned_decimalText cs hcs
  rw [realText, ignoringCase_mul, ignoringCase_optional, ignoringCase_sign,
    mem_signed_iff hunsigned.ignoringCase, real?]
  obtain ⟨negative, body⟩ := splitSign cs
  show _ ↔ ((body.map Char.toLower = "inf".toList ∨ body.map Char.toLower = "infinity".toList) ∨
    body.map Char.toLower = "nan".toList) ∨ body ∈ ignoringCase decimalText
  rw [← isSome_decimal?_iff]
  dsimp only
  split_ifs with hinfinity hnan
  · exact iff_of_true rfl (Or.inl (Or.inl hinfinity))
  · exact iff_of_true rfl (Or.inl (Or.inr hnan))
  · rw [Option.isSome_map]
    exact (or_iff_right (not_or.2 ⟨hinfinity, hnan⟩)).symm

/-- Every integer could be read as a floating-point number. -/
theorem mem_realText_of_mem_integerText (h : cs ∈ integerText) : cs ∈ ignoringCase realText := by
  obtain ⟨s, hs, ds, hds, rfl⟩ := h
  rw [realText, ignoringCase_mul, ignoringCase_optional, ignoringCase_sign]
  have hdecimal : ds ∈ ignoringCase decimalText := by
    rw [ignoringCase_decimalText]
    exact ⟨ds, Or.inl (Or.inl hds), [], mem_optional_iff.2 (Or.inl rfl), List.append_nil ds⟩
  exact ⟨s, hs, ds, Or.inr hdecimal, rfl⟩

end Numeral

/-! ### Tokens -/

theorem int64?_eq_some_iff {token : String} {n : Int64} : int64? token = some n ↔
    token.toList ∈ Numeral.integerText ∧ Numeral.integerValue token.toList = n.toInt := by
  rw [int64?, ← Numeral.integer?_eq_some_iff, Option.bind_eq_some_iff]
  constructor
  · rintro ⟨z, hz, h⟩
    split_ifs at h with hrange
    rw [← Option.some.inj h, Int64.toInt_ofInt_of_le hrange.1 hrange.2]
    exact hz
  · intro h
    refine ⟨_, h, ?_⟩
    rw [if_pos ⟨n.le_toInt, n.toInt_lt⟩, Int64.ofInt_toInt]

/-- Whether a token is the text of an integer of 64 bits. -/
def IsIntegerToken (token : String) : Prop :=
  token.toList ∈ Numeral.integerText ∧ IsInt64 (Numeral.integerValue token.toList)

/-- Whether a token is the text of a floating-point number. -/
def IsRealToken (token : String) : Prop := token.toList ∈ Numeral.ignoringCase Numeral.realText

theorem isSome_int64?_iff {token : String} :
    (int64? token).isSome = true ↔ IsIntegerToken token := by
  rw [Option.isSome_iff_exists]
  simp only [int64?_eq_some_iff]
  constructor
  · rintro ⟨n, htext, hvalue⟩
    rw [IsIntegerToken, hvalue]
    exact ⟨htext, n.le_toInt, n.toInt_lt⟩
  · rintro ⟨htext, hlow, hhigh⟩
    exact ⟨Int64.ofInt _, htext, (Int64.toInt_ofInt_of_le hlow hhigh).symm⟩

theorem int64?_eq_none_iff {token : String} : int64? token = none ↔ ¬IsIntegerToken token := by
  rw [← isSome_int64?_iff, Option.not_isSome_iff_eq_none]

/-! ### Atoms -/

theorem atom_eq_int_iff {token : String} {n : Int64} :
    atom token = .int n ↔ int64? token = some n := by
  unfold atom
  cases int64? token with
  | some m => simp
  | none => cases Numeral.real? token.toList <;> simp

theorem atom_eq_real_iff {token : String} {x : Binary64} :
    atom token = .real x ↔ int64? token = none ∧ Numeral.real? token.toList = some x := by
  unfold atom
  cases int64? token with
  | some m => simp
  | none => cases Numeral.real? token.toList <;> simp

theorem atom_eq_symbol_iff {token name : String} : atom token = .symbol name
    ↔ name = token ∧ int64? token = none ∧ Numeral.real? token.toList = none := by
  unfold atom
  cases int64? token with
  | some m => simp
  | none => cases Numeral.real? token.toList <;> simp [eq_comm]

/-- **The kinds of atoms**: a token is an integer if it is the text of one of 64 bits, otherwise a
floating-point number if it is the text of one in whatever case, and otherwise the symbol with its
own text.  So an integer of 64 bits is read from its decimal text, and any other integer is read as
a floating-point number. -/
theorem atom_kinds (token : String) :
    (∀ n, atom token = .int n ↔
      IsIntegerToken token ∧ Numeral.integerValue token.toList = n.toInt) ∧
    ((∃ n, atom token = .int n) ↔ IsIntegerToken token) ∧
    ((∃ x, atom token = .real x) ↔ ¬IsIntegerToken token ∧ IsRealToken token) ∧
    (∀ name, atom token = .symbol name ↔
      name = token ∧ ¬IsIntegerToken token ∧ ¬IsRealToken token) ∧
    (∀ n : Int64, atom (Value.int n).text = .int n) ∧
    (token.toList ∈ Numeral.integerText → ¬IsInt64 (Numeral.integerValue token.toList) →
      ∃ x, atom token = .real x) := by
  have hreal : (∃ x, atom token = .real x) ↔ ¬IsIntegerToken token ∧ IsRealToken token := by
    simp only [atom_eq_real_iff, exists_and_left]
    rw [int64?_eq_none_iff, ← Option.isSome_iff_exists, Numeral.isSome_real?_iff, IsRealToken]
  refine ⟨fun n => ?_, ?_, hreal, fun name => ?_, fun n => ((Readable.int n).atom_text rfl).2,
    fun htext hrange => ?_⟩
  · rw [atom_eq_int_iff, int64?_eq_some_iff, IsIntegerToken, and_assoc]
    refine and_congr_right fun _ => (and_iff_right_of_imp fun hvalue => ?_).symm
    rw [hvalue]
    exact ⟨n.le_toInt, n.toInt_lt⟩
  · simp only [atom_eq_int_iff]
    rw [← Option.isSome_iff_exists, isSome_int64?_iff]
  · rw [atom_eq_symbol_iff, int64?_eq_none_iff, IsRealToken, ← Numeral.isSome_real?_iff,
      Option.not_isSome_iff_eq_none]
  · exact hreal.2 ⟨fun h => hrange h.2, Numeral.mem_realText_of_mem_integerText htext⟩

/-- The least integer beyond 64 bits is a floating-point number. -/
theorem atom_kinds_beyond : ∃ token, token = "9223372036854775808" ∧
    token.toList ∈ Numeral.integerText ∧ ¬IsInt64 (Numeral.integerValue token.toList) ∧
      ∃ x, atom token = .real x := by
  have hread : Numeral.integer? "9223372036854775808".toList = some 9223372036854775808 := by
    decide +kernel
  obtain ⟨htext, hvalue⟩ := Numeral.integer?_eq_some_iff.1 hread
  have hrange : ¬IsInt64 (Numeral.integerValue "9223372036854775808".toList) := by
    rw [hvalue]
    decide
  obtain ⟨-, -, -, -, -, hbeyond⟩ := atom_kinds "9223372036854775808"
  exact ⟨_, rfl, htext, hrange, hbeyond htext hrange⟩

end SmallLisp
