import SmallLisp.Primitive.Apply
import SmallLisp.Proofs.Binary64.Nearest

/-!
# The greatest and the least of some numbers

Numbers of both kinds have a place on one line (`Value.value?`), and `Extremum.Bounds` compares them
there, without rounding.  The best integer and the best floating-point number bound those of their
kind, since the better of two is one of the two and bounds both (`Extremum.foldl_mem_and_forall`).

The two are then compared in floating point.  Rounding an integer keeps the order to any
floating-point number (`Bounds.round_left`, `Bounds.round_right`), but may make the two equal, and
an integer wins a tie.  So what is found bounds all of the numbers unless the integer was only
rounded onto the floating-point number that does (`extremum_bounds_iff`); no integer of 53 bits is
(`Extremum.not_blurs`).
-/

namespace SmallLisp

/-- The number on the number line that a value is; `nan` and what is no number are none. -/
def Value.value? : Value → Option ExtendedRat
  | .int n => some (.ofRat n.toInt)
  | .real x => x.value?
  | _ => none

@[simp] theorem Value.value?_int (n : Int64) : (Value.int n).value? = some (.ofRat n.toInt) := rfl

@[simp] theorem Value.value?_real (r : Binary64) : (Value.real r).value? = r.value? := rfl

theorem Value.eq_of_value?_int {m n : Int64} (h : (Value.int m).value? = (Value.int n).value?) :
    m = n := by
  rw [Value.value?_int, Value.value?_int, Option.some.injEq, ExtendedRat.ofRat_inj,
    Int.cast_inj] at h
  exact Int64.toInt_inj.1 h

namespace Extremum

/-! ### Direction -/

section Direction

variable {α : Type} [LinearOrder α] {x : Extremum} {a b c : α}

/-- Whether `a` is at least as far in a direction as `b`. -/
def Reaches (x : Extremum) (a b : α) : Prop :=
  match x with
  | maximum => b ≤ a
  | minimum => a ≤ b

instance (x : Extremum) (a b : α) : Decidable (x.Reaches a b) :=
  match x with
  | maximum => inferInstanceAs (Decidable (b ≤ a))
  | minimum => inferInstanceAs (Decidable (a ≤ b))

theorem Reaches.refl (x : Extremum) (a : α) : x.Reaches a a := by
  cases x <;> exact le_refl a

theorem Reaches.trans (h : x.Reaches a b) (h' : x.Reaches b c) : x.Reaches a c := by
  cases x with
  | maximum => exact le_trans h' h
  | minimum => exact le_trans h h'

theorem Reaches.antisymm (h : x.Reaches a b) (h' : x.Reaches b a) : a = b := by
  cases x with
  | maximum => exact le_antisymm h' h
  | minimum => exact le_antisymm h h'

theorem Reaches.total (x : Extremum) (a b : α) : x.Reaches a b ∨ x.Reaches b a := by
  cases x with
  | maximum => exact le_total b a
  | minimum => exact le_total a b

/-- What takes the place of another goes beyond it. -/
theorem prefers_compare_iff : x.prefers (some (compare b a)) = true ↔ ¬x.Reaches a b := by
  cases x with
  | maximum => simp [prefers, Reaches, compare_gt_iff_gt]
  | minimum => simp [prefers, Reaches, compare_lt_iff_lt]

end Direction

/-! ### Numbers -/

section Numbers

variable {x : Extremum} {u v w : Value} {a b : ExtendedRat}

/-- Whether a number is at least as far in a direction as another, both taken exactly. -/
def Bounds (x : Extremum) (v w : Value) : Prop :=
  ∃ a b, v.value? = some a ∧ w.value? = some b ∧ x.Reaches a b

theorem bounds_iff (hv : v.value? = some a) (hw : w.value? = some b) :
    x.Bounds v w ↔ x.Reaches a b := by
  constructor
  · rintro ⟨a', b', ha, hb, h⟩
    obtain rfl := Option.some.inj (hv.symm.trans ha)
    obtain rfl := Option.some.inj (hw.symm.trans hb)
    exact h
  · intro h
    exact ⟨a, b, hv, hw, h⟩

theorem Bounds.refl (hv : v.value? = some a) : x.Bounds v v :=
  ⟨a, a, hv, hv, .refl x a⟩

theorem Bounds.trans (h : x.Bounds u v) (h' : x.Bounds v w) : x.Bounds u w := by
  obtain ⟨a, b, ha, hb, hab⟩ := h
  obtain ⟨b', c, hb', hc, hbc⟩ := h'
  obtain rfl := Option.some.inj (hb.symm.trans hb')
  exact ⟨a, c, ha, hc, hab.trans hbc⟩

theorem Bounds.total (x : Extremum) (hv : v.value? = some a) (hw : w.value? = some b) :
    x.Bounds v w ∨ x.Bounds w v := by
  rw [bounds_iff hv hw, bounds_iff hw hv]
  exact Reaches.total x a b

theorem Bounds.value?_eq (h : x.Bounds v w) (h' : x.Bounds w v) : v.value? = w.value? := by
  obtain ⟨a, b, ha, hb, hab⟩ := h
  rw [bounds_iff hb ha] at h'
  rw [ha, hb, hab.antisymm h']

theorem bounds_int_iff {m n : Int64} :
    x.Bounds (.int m) (.int n) ↔ x.Reaches m.toInt n.toInt := by
  rw [bounds_iff rfl rfl]
  cases x <;> simp [Reaches]

/-- The better of two integers bounds both. -/
theorem ofInts_cases (x : Extremum) (m n : Int64) :
    x.ofInts m n = m ∧ x.Bounds (.int m) (.int n) ∨
      x.ofInts m n = n ∧ x.Bounds (.int n) (.int m) := by
  unfold ofInts
  split_ifs with hprefers
  · rw [prefers_compare_iff, ← bounds_int_iff] at hprefers
    exact Or.inr ⟨rfl, (Bounds.total x rfl rfl).resolve_left hprefers⟩
  · rw [prefers_compare_iff, not_not, ← bounds_int_iff] at hprefers
    exact Or.inl ⟨rfl, hprefers⟩

theorem prefers_compare?_iff {r s : Binary64} (hr : r.value? = some a) (hs : s.value? = some b) :
    x.prefers (s.compare? r) = true ↔ ¬x.Bounds (.real r) (.real s) := by
  rw [Binary64.compare?_eq hs hr, prefers_compare_iff,
    bounds_iff (v := .real r) (w := .real s) hr hs]

/-- The better of two floating-point numbers bounds both. -/
theorem ofReals_cases (x : Extremum) {r s : Binary64} (hr : r.value? = some a)
    (hs : s.value? = some b) : x.ofReals r s = r ∧ x.Bounds (.real r) (.real s) ∨
      x.ofReals r s = s ∧ x.Bounds (.real s) (.real r) := by
  have hnan : r.isNan = false := by
    rw [← Bool.not_eq_true, ← Binary64.value?_eq_none_iff, hr]
    simp
  unfold ofReals
  rw [hnan, Bool.false_or]
  split_ifs with hprefers
  · rw [prefers_compare?_iff hr hs] at hprefers
    exact Or.inr ⟨rfl, (Bounds.total x (v := .real r) (w := .real s) hr hs).resolve_left hprefers⟩
  · rw [prefers_compare?_iff hr hs, not_not] at hprefers
    exact Or.inl ⟨rfl, hprefers⟩

end Numbers

/-! ### The best of some items -/

section Best

variable {α : Type} {better : α → α → α} {R : α → α → Prop} {items : List α}

/-- Whatever is kept on the way through some items is one of those seen and as good as all of
them. -/
theorem foldl_mem_and_forall {a : α} (hrefl : ∀ b ∈ a :: items, R b b)
    (htrans : ∀ a b c, R a b → R b c → R a c)
    (hbetter : ∀ b ∈ a :: items, ∀ c ∈ a :: items,
      better b c = b ∧ R b c ∨ better b c = c ∧ R c b) :
    items.foldl better a ∈ a :: items ∧ ∀ b ∈ a :: items, R (items.foldl better a) b := by
  induction items generalizing a with
  | nil => simpa using hrefl a
  | cons b items ih =>
    have hab : (better a b = a ∨ better a b = b) ∧ R (better a b) a ∧ R (better a b) b := by
      rcases hbetter a (by simp) b (by simp) with ⟨heq, hR⟩ | ⟨heq, hR⟩
      · rw [heq]
        exact ⟨Or.inl rfl, hrefl a (by simp), hR⟩
      · rw [heq]
        exact ⟨Or.inr rfl, hR, hrefl b (by simp)⟩
    obtain ⟨hkept, ha, hb⟩ := hab
    have hsub : ∀ c ∈ better a b :: items, c ∈ a :: b :: items := by
      rcases hkept with heq | heq <;> rw [heq] <;> simp +contextual
    obtain ⟨hmem, hall⟩ := ih (fun c hc => hrefl c (hsub c hc))
      (fun c hc d hd => hbetter c (hsub c hc) d (hsub d hd))
    rw [List.foldl_cons]
    refine ⟨hsub _ hmem, fun c hc => ?_⟩
    have hbest := hall _ (List.mem_cons_self ..)
    rcases List.mem_cons.1 hc with rfl | hc
    · exact htrans _ _ _ hbest ha
    · rcases List.mem_cons.1 hc with rfl | hc
      · exact htrans _ _ _ hbest hb
      · exact hall c (List.mem_cons_of_mem _ hc)

/-- The best of some items is one of them and as good as all, if the better of two is one of the two
and as good as both. -/
theorem mem_and_forall_of_best (hrefl : ∀ a ∈ items, R a a)
    (htrans : ∀ a b c, R a b → R b c → R a c)
    (hbetter : ∀ a ∈ items, ∀ b ∈ items, better a b = a ∧ R a b ∨ better a b = b ∧ R b a) {a : α}
    (h : best better items = some a) : a ∈ items ∧ ∀ b ∈ items, R a b := by
  cases items with
  | nil => cases h
  | cons b items =>
    obtain rfl := Option.some.inj h
    exact foldl_mem_and_forall hrefl htrans hbetter

theorem best_eq_none_iff : best better items = none ↔ items = [] := by
  cases items <;> simp [best]

end Best

/-! ### Rounding -/

section Rounding

variable {x : Extremum} {n : Int64} {r : Binary64}

theorem isNearest_ofInt (n : Int64) : (Binary64.ofInt n.toInt).IsNearest n.toInt := by
  have hlow := n.le_toInt
  have hhigh := n.toInt_lt
  exact Binary64.isNearest_ofInt (k := 64) (by decide) (by omega)

theorem exists_value?_ofInt (n : Int64) : ∃ a, (Binary64.ofInt n.toInt).value? = some a := by
  obtain ⟨s, m, hfinite, -⟩ := isNearest_ofInt n
  exact ⟨_, by rw [hfinite]; rfl⟩

/-- What an integer reaches, it still reaches when it is rounded. -/
theorem Bounds.round_left (h : x.Bounds (.int n) (.real r)) :
    x.Bounds (.real (.ofInt n.toInt)) (.real r) := by
  obtain ⟨a, b, ⟨⟩, hb, hab⟩ := h
  obtain ⟨c, hc⟩ := exists_value?_ofInt n
  refine ⟨c, b, hc, hb, ?_⟩
  cases x with
  | maximum => exact (isNearest_ofInt n).le_of_le hc hb hab
  | minimum => exact (isNearest_ofInt n).le_of_ge hc hb hab

/-- What reaches an integer, reaches it still when that is rounded. -/
theorem Bounds.round_right (h : x.Bounds (.real r) (.int n)) :
    x.Bounds (.real r) (.real (.ofInt n.toInt)) := by
  obtain ⟨a, b, ha, ⟨⟩, hab⟩ := h
  obtain ⟨c, hc⟩ := exists_value?_ofInt n
  refine ⟨a, c, ha, hc, ?_⟩
  cases x with
  | maximum => exact (isNearest_ofInt n).le_of_ge hc ha hab
  | minimum => exact (isNearest_ofInt n).le_of_le hc ha hab

end Rounding

/-- Whether rounding hides the extremum: it is a floating-point number, and the best integer, which
falls short of it, is rounded onto it. -/
def Blurs (x : Extremum) (args : List Value) : Prop :=
  ∃ n r, .int n ∈ args ∧ .real r ∈ args ∧ (∀ m, .int m ∈ args → x.Bounds (.int n) (.int m)) ∧
    (∀ w ∈ args, x.Bounds (.real r) w) ∧ ¬x.Bounds (.int n) (.real r) ∧
    (Binary64.ofInt n.toInt).value? = r.value?

/-- What is found among some numbers. -/
structure Found (x : Extremum) (args : List Value) (v : Value) : Prop where
  /-- It is one of them. -/
  mem : v ∈ args
  /-- It is an integer if an integer is as good. -/
  int_of_tie : ∀ n, .int n ∈ args → (Value.int n).value? = v.value? → v = .int n
  /-- It bounds all of them, unless rounding hides that something else does. -/
  bounds_iff : (∀ w ∈ args, x.Bounds v w) ↔ ¬x.Blurs args

section Found

variable {x : Extremum} {args : List Value} {n : Int64} {r : Binary64}

/-- What holds of the integers and the floating-point numbers among some numbers, holds of all. -/
theorem forall_of_numbers (hargs : ∀ v ∈ args, v.value?.isSome) {P : Value → Prop}
    (hints : ∀ n, .int n ∈ args → P (.int n)) (hreals : ∀ r, .real r ∈ args → P (.real r)) :
    ∀ v ∈ args, P v := by
  intro v hv
  have hvalue := hargs v hv
  cases v with
  | int n => exact hints n hv
  | real r => exact hreals r hv
  | _ => cases hvalue

variable (hargs : ∀ v ∈ args, v.value?.isSome)
include hargs

theorem found_of_ints (hn : .int n ∈ args)
    (hbest : ∀ m, .int m ∈ args → x.Bounds (.int n) (.int m)) (hreals : ∀ r, .real r ∉ args) :
    x.Found args (.int n) where
  mem := hn
  int_of_tie m _ htie := congrArg Value.int (Value.eq_of_value?_int htie).symm
  bounds_iff := by
    refine iff_of_true (forall_of_numbers hargs hbest fun r hr => absurd hr (hreals r)) ?_
    rintro ⟨m, r, -, hr, -⟩
    exact hreals r hr

theorem found_of_reals (hr : .real r ∈ args)
    (hbest : ∀ s, .real s ∈ args → x.Bounds (.real r) (.real s)) (hints : ∀ n, .int n ∉ args) :
    x.Found args (.real r) where
  mem := hr
  int_of_tie n hn _ := absurd hn (hints n)
  bounds_iff := by
    refine iff_of_true (forall_of_numbers hargs (fun n hn => absurd hn (hints n)) hbest) ?_
    rintro ⟨n, s, hn, -⟩
    exact hints n hn

theorem found_of_both (hn : .int n ∈ args) (hr : .real r ∈ args)
    (hints : ∀ m, .int m ∈ args → x.Bounds (.int n) (.int m))
    (hreals : ∀ s, .real s ∈ args → x.Bounds (.real r) (.real s)) :
    x.Found args
      (if x.prefers (r.compare? (.ofInt n.toInt)) then .real r else .int n) := by
  obtain ⟨a, ha⟩ := Option.isSome_iff_exists.1 (hargs _ hr)
  obtain ⟨c, hc⟩ := exists_value?_ofInt n
  have hbest {m : Int64} (hm : .int m ∈ args)
      (h : ∀ k, .int k ∈ args → x.Bounds (.int m) (.int k)) : m = n :=
    Value.eq_of_value?_int ((h n hn).value?_eq (hints m hm))
  split_ifs with hprefers
  · -- The integer does not reach `r`, or it would when rounded.
    rw [prefers_compare?_iff hc ha] at hprefers
    have hshort : ¬x.Bounds (.int n) (.real r) := fun h => hprefers h.round_left
    have hbeyond : x.Bounds (.real r) (.int n) :=
      (Bounds.total x (v := .int n) (w := .real r) rfl ha).resolve_left hshort
    refine ⟨hr, fun m hm htie => ?_, iff_of_true ?_ ?_⟩
    · obtain ⟨b, d, hb, hd, hbd⟩ := hints m hm
      exact absurd ⟨b, d, hb, htie.symm.trans hd, hbd⟩ hshort
    · exact forall_of_numbers hargs (fun m hm => hbeyond.trans (hints m hm)) hreals
    · rintro ⟨m, s, hm, hs, hm', hall, -, heq⟩
      obtain rfl := hbest hm hm'
      have hsr : s.value? = r.value? := (hall _ hr).value?_eq (hreals s hs)
      exact hprefers ⟨c, c, hc, hsr.symm.trans (heq.symm.trans hc), .refl x c⟩
  · -- The integer reaches `r` when it is rounded, but perhaps only then.
    rw [prefers_compare?_iff hc ha, not_not] at hprefers
    refine ⟨hn, fun m _ htie => congrArg Value.int (Value.eq_of_value?_int htie).symm, ?_⟩
    by_cases hreach : x.Bounds (.int n) (.real r)
    · have hall (s : Binary64) (hs : .real s ∈ args) : x.Bounds (.int n) (.real s) :=
        hreach.trans (hreals s hs)
      refine iff_of_true (forall_of_numbers hargs hints hall) ?_
      rintro ⟨m, s, hm, hs, hm', -, hshort, -⟩
      obtain rfl := hbest hm hm'
      exact hshort (hall s hs)
    · have hbeyond : x.Bounds (.real r) (.int n) :=
        (Bounds.total x (v := .int n) (w := .real r) rfl ha).resolve_left hreach
      have hall : ∀ w ∈ args, x.Bounds (.real r) w :=
        forall_of_numbers hargs (fun m hm => hbeyond.trans (hints m hm)) hreals
      refine iff_of_false (fun h => hreach (h _ hr)) (not_not.2 ?_)
      exact ⟨n, r, hn, hr, hints, hall, hreach, hprefers.value?_eq hbeyond.round_right⟩

end Found

end Extremum

namespace Primitive

/-- Numbers are split into integers and floating-point numbers. -/
theorem exists_splitNumbers {args : List Value} (h : ∀ v ∈ args, v.isNumber = true) :
    ∃ ints reals, splitNumbers args = .ok (ints, reals) ∧ (∀ n, n ∈ ints ↔ .int n ∈ args) ∧
      ∀ r, r ∈ reals ↔ .real r ∈ args := by
  induction args with
  | nil => exact ⟨[], [], rfl, by simp, by simp⟩
  | cons v args ih =>
    obtain ⟨hv, hargs⟩ := List.forall_mem_cons.1 h
    obtain ⟨ints, reals, hsplit, hints, hreals⟩ := ih hargs
    cases v with
    | int n =>
      refine ⟨n :: ints, reals, ?_, by simp [hints], by simp [hreals]⟩
      rw [splitNumbers, hsplit]
      rfl
    | real r =>
      refine ⟨ints, r :: reals, ?_, by simp [hints], by simp [hreals]⟩
      rw [splitNumbers, hsplit]
      rfl
    | _ => cases hv

theorem choosing_eq {x : Extremum} {args : List Value} {ints : List Int64} {reals : List Binary64}
    {v : Value} (hsplit : splitNumbers args = .ok (ints, reals))
    (h : x.ofNumbers ints reals = some v) : choosing x args = .ok v := by
  rw [choosing, hsplit]
  simp only [bind, Except.bind, h]
  rfl

end Primitive

theorem Value.isNumber_of_value? {v : Value} (h : v.value?.isSome) : v.isNumber = true := by
  cases v with
  | int n => rfl
  | real r => rfl
  | _ => cases h

namespace Extremum

variable {x : Extremum} {args : List Value} {ints : List Int64} {reals : List Binary64}

theorem bounds_of_best_ints (hints : ∀ n, n ∈ ints ↔ .int n ∈ args) {n : Int64}
    (h : best x.ofInts ints = some n) :
    .int n ∈ args ∧ ∀ m, .int m ∈ args → x.Bounds (.int n) (.int m) := by
  obtain ⟨hmem, hall⟩ := mem_and_forall_of_best (R := fun m n => x.Bounds (.int m) (.int n))
    (fun m _ => .refl rfl) (fun _ _ _ h h' => h.trans h') (fun m _ n _ => x.ofInts_cases m n) h
  exact ⟨(hints n).1 hmem, fun m hm => hall m ((hints m).2 hm)⟩

theorem bounds_of_best_reals (hargs : ∀ v ∈ args, v.value?.isSome)
    (hreals : ∀ r, r ∈ reals ↔ .real r ∈ args) {r : Binary64}
    (h : best x.ofReals reals = some r) :
    .real r ∈ args ∧ ∀ s, .real s ∈ args → x.Bounds (.real r) (.real s) := by
  have hvalue (s : Binary64) (hs : s ∈ reals) : ∃ a, s.value? = some a :=
    Option.isSome_iff_exists.1 (hargs _ ((hreals s).1 hs))
  obtain ⟨hmem, hall⟩ := mem_and_forall_of_best (R := fun r s => x.Bounds (.real r) (.real s))
    (fun s hs => .refl (hvalue s hs).choose_spec) (fun _ _ _ h h' => h.trans h')
    (fun s hs t ht => x.ofReals_cases (hvalue s hs).choose_spec (hvalue t ht).choose_spec) h
  exact ⟨(hreals r).1 hmem, fun s hs => hall s ((hreals s).2 hs)⟩

/-- Something is found among some numbers, if there are any. -/
theorem exists_ofNumbers (hne : args ≠ []) (hargs : ∀ v ∈ args, v.value?.isSome)
    (hints : ∀ n, n ∈ ints ↔ .int n ∈ args) (hreals : ∀ r, r ∈ reals ↔ .real r ∈ args) :
    ∃ v, x.ofNumbers ints reals = some v ∧ x.Found args v := by
  unfold ofNumbers
  have hnoInts (h : best x.ofInts ints = none) (n : Int64) : .int n ∉ args := by
    rw [best_eq_none_iff] at h
    rw [← hints, h]
    exact List.not_mem_nil
  have hnoReals (h : best x.ofReals reals = none) (r : Binary64) : .real r ∉ args := by
    rw [best_eq_none_iff] at h
    rw [← hreals, h]
    exact List.not_mem_nil
  rcases hn : best x.ofInts ints with _ | n
  · rcases hr : best x.ofReals reals with _ | r
    · obtain ⟨v, hv⟩ := List.exists_mem_of_ne_nil args hne
      have hnone : ∀ v ∈ args, False := forall_of_numbers hargs (hnoInts hn) (hnoReals hr)
      exact (hnone v hv).elim
    · obtain ⟨hmem, hbest⟩ := bounds_of_best_reals hargs hreals hr
      exact ⟨_, rfl, found_of_reals hargs hmem hbest (hnoInts hn)⟩
  · obtain ⟨hmem, hbest⟩ := bounds_of_best_ints hints hn
    rcases hr : best x.ofReals reals with _ | r
    · exact ⟨_, rfl, found_of_ints hargs hmem hbest (hnoReals hr)⟩
    · obtain ⟨hmem', hbest'⟩ := bounds_of_best_reals hargs hreals hr
      exact ⟨_, (apply_ite some ..).symm, found_of_both hargs hmem hmem' hbest hbest'⟩

/-- Integers of 53 bits are not blurred. -/
theorem not_blurs (h : ∀ n, .int n ∈ args → n.toInt.natAbs ≤ 2 ^ 53) : ¬x.Blurs args := by
  rintro ⟨n, r, hn, -, -, -, hshort, heq⟩
  rw [Binary64.value?_ofInt (Binary64.representable_of_natAbs_le (h n hn))] at heq
  exact hshort ⟨_, _, rfl, heq.symm, .refl x _⟩

end Extremum

/-- **The greatest and the least of some numbers** are among them, and an integer wins a tie.  They
bound all of the numbers, exactly unless the best integer is rounded onto a floating-point number
beyond it that bounds them. -/
theorem extremum_bounds_iff (x : Extremum) (args : List Value) (hne : args ≠ [])
    (hargs : ∀ v ∈ args, v.value?.isSome) :
    ∃ v, (Primitive.extremum x).apply args = .ok v ∧ x.Found args v := by
  obtain ⟨ints, reals, hsplit, hints, hreals⟩ :=
    Primitive.exists_splitNumbers fun v hv => Value.isNumber_of_value? (hargs v hv)
  obtain ⟨v, hv, hfound⟩ := Extremum.exists_ofNumbers hne hargs hints hreals
  exact ⟨v, Primitive.choosing_eq hsplit hv, hfound⟩

/-- An integer wins the tie with its own floating-point number, and bounds the others. -/
theorem extremum_bounds_iff_tie : ∃ args, args = [.real (.ofInt 5), .int 5, .int 3] ∧
    (∀ v ∈ args, v.value?.isSome) ∧
    (Primitive.extremum .maximum).apply args = .ok (.int 5) ∧
      ∀ w ∈ args, Extremum.maximum.Bounds (.int 5) w := by
  have hfive : (Value.real (.ofInt 5)).value? = (Value.int 5).value? := by
    have hint : (5 : Int64).toInt = 5 := by decide
    rw [Value.value?_real, Value.value?_int, hint]
    exact Binary64.value?_ofInt (Binary64.representable_of_natAbs_le (by decide))
  have hargs : ∀ v ∈ ([.real (.ofInt 5), .int 5, .int 3] : List Value), v.value?.isSome := by
    simp only [List.forall_mem_cons, hfive]
    exact ⟨rfl, rfl, rfl, by simp⟩
  obtain ⟨v, happly, hmem, htie, hbounds⟩ :=
    extremum_bounds_iff .maximum [.real (.ofInt 5), .int 5, .int 3] (by simp) hargs
  replace hbounds := hbounds.2 (Extremum.not_blurs (by simp))
  obtain rfl : v = .int 5 := by
    simp only [List.mem_cons, List.not_mem_nil, or_false] at hmem
    rcases hmem with rfl | rfl | rfl
    · exact htie 5 (by simp) hfive.symm
    · rfl
    · have h := hbounds (.int 5) (by simp)
      rw [Extremum.bounds_int_iff] at h
      exact absurd h (by decide)
  exact ⟨_, rfl, hargs, happly, hbounds⟩

/-- The greatest of two numbers is missed: the integer falls short of the floating-point number that
it is rounded onto. -/
theorem maximum_missed : (Primitive.extremum .maximum).apply
      [.int 9007199254740995, .real (.ofInt 9007199254740996)] = .ok (.int 9007199254740995) ∧
    ¬Extremum.maximum.Bounds (.int 9007199254740995) (.real (.ofInt 9007199254740996)) := by
  have hint : (9007199254740995 : Int64).toInt = 9007199254740995 := by decide
  have hcompare :
      (Binary64.ofInt 9007199254740996).compare? (.ofInt 9007199254740995) = some .eq := by
    decide +kernel
  have hvalue : (Binary64.ofInt 9007199254740996).value? = some (.ofRat (9007199254740996 : ℤ)) :=
    Binary64.value?_ofInt (by decide +kernel)
  have hchosen : Extremum.maximum.ofNumbers [9007199254740995] [.ofInt 9007199254740996]
      = some (.int 9007199254740995) := by
    simp only [Extremum.ofNumbers, Extremum.best, List.foldl_nil, hint, hcompare]
    rfl
  refine ⟨Primitive.choosing_eq rfl hchosen, ?_⟩
  rw [Extremum.bounds_iff (Value.value?_int _) ((Value.value?_real _).trans hvalue), hint]
  show ¬ExtendedRat.ofRat _ ≤ ExtendedRat.ofRat _
  rw [ExtendedRat.ofRat_le_ofRat]
  norm_num

end SmallLisp
