import SmallLisp.Primitive.Apply
import SmallLisp.Proofs.Binary64.Line
import SmallLisp.Proofs.Text.Bytes

/-!
# Comparisons

Values of one kind that has an order are compared in it (`Value.Compares`): integers and
floating-point numbers in the order of the number line, symbols in the order of their texts.  All
five comparisons are read off how two values compare (`Comparison.yields_iff`), and what can be
compared at all compares in some way unless `nan` takes part (`Value.exists_compares`).  So the laws
of the five are laws of one relation: equal values are told by it (`Compares.same_eq`), swapping the
values swaps it (`Compares.swap`), and it is transitive (`Compares.trans`).

`comparisons_one_order` puts the laws together, and says of symbols that their order is that of
their code points and that of their bytes.
-/

namespace SmallLisp

/-! ### The order of a kind -/

/-- How two values of a kind that has an order compare; `nan` compares with nothing. -/
inductive Value.Compares : Value → Value → Ordering → Prop
  | int (m n : Int64) : Compares (.int m) (.int n) (compare m.toInt n.toInt)
  | real {x y : Binary64} {a b : ExtendedRat} (hx : x.value? = some a) (hy : y.value? = some b) :
      Compares (.real x) (.real y) (compare a b)
  | symbol (a b : String) : Compares (.symbol a) (.symbol b) (compare a b)

namespace Value.Compares

variable {u v w : Value} {o o' : Ordering}

theorem swap (h : Compares v w o) : Compares w v o.swap := by
  cases h with
  | int m n =>
    rw [← Std.OrientedCmp.eq_swap]
    exact .int n m
  | real hx hy =>
    rw [← Std.OrientedCmp.eq_swap]
    exact .real hy hx
  | symbol a b =>
    rw [← Std.OrientedCmp.eq_swap]
    exact .symbol b a

theorem trans (h : Compares u v o) (h' : Compares v w o') (ho : o = .lt) (ho' : o' = .lt) :
    Compares u w .lt := by
  cases h with
  | int k m =>
    cases h' with
    | int _ n =>
      rw [← Std.TransCmp.lt_trans ho ho']
      exact .int k n
  | real hx hy =>
    cases h' with
    | real hy' hz =>
      obtain rfl := Option.some.inj (hy.symm.trans hy')
      rw [← Std.TransCmp.lt_trans ho ho']
      exact .real hx hz
  | symbol a b =>
    cases h' with
    | symbol _ c =>
      rw [← Std.TransCmp.lt_trans ho ho']
      exact .symbol a c

/-- Values are equal if neither of them comes first. -/
theorem same_eq (h : Compares v w o) : v.same w = (o == .eq) := by
  cases h with
  | int m n =>
    rw [same, Bool.eq_iff_iff, beq_iff_eq, beq_iff_eq, compare_eq_iff_eq, Int64.toInt_inj]
  | real hx hy =>
    rw [same, Binary64.eqv, Binary64.compare?_eq hx hy]
    rfl
  | symbol a b => rw [same, Bool.eq_iff_iff, beq_iff_eq, beq_iff_eq, compare_eq_iff_eq]

end Value.Compares

/-! ### What comparisons yield -/

/-- Whether a comparison of two values comes to a truth value. -/
def Comparison.Yields (c : Comparison) (v w : Value) (b : Bool) : Prop :=
  (Primitive.compare c).apply [v, w] = .ok (.bool b)

open Comparison

variable {c : Comparison} {v w r : Value} {o : Ordering} {b : Bool}

/-- A comparison only depends on how the values compare. -/
theorem Comparison.yields_iff (h : v.Compares w o) : c.Yields v w b ↔ c.holds (some o) = b := by
  have happly : (Primitive.compare c).apply [v, w] = .ok (.bool (c.holds (some o))) := by
    cases h with
    | int m n => rfl
    | real hx hy =>
      rw [← Binary64.compare?_eq hx hy]
      rfl
    | symbol a b => rfl
  rw [Yields, happly, Except.ok.injEq, Value.bool.injEq]

theorem Comparison.less_yields_iff (h : v.Compares w o) : less.Yields v w true ↔ o = .lt := by
  rw [yields_iff h, holds, beq_iff_eq, Option.some.injEq]

/-- What can be compared, compares in some way unless `nan` takes part. -/
theorem Value.exists_compares (h : (Primitive.compare c).apply [v, w] = .ok r)
    (hv : v ≠ .real .nan) (hw : w ≠ .real .nan) : ∃ o, v.Compares w o := by
  have hvalue {x : Binary64} (hx : Value.real x ≠ .real .nan) : ∃ a, x.value? = some a := by
    cases x with
    | nan => exact absurd rfl hx
    | infinity s => exact ⟨_, rfl⟩
    | finite s m => exact ⟨_, rfl⟩
  cases v with
  | int m =>
    cases w with
    | int n => exact ⟨_, .int m n⟩
    | _ => cases h
  | real x =>
    cases w with
    | real y =>
      obtain ⟨a, ha⟩ := hvalue hv
      obtain ⟨b, hb⟩ := hvalue hw
      exact ⟨_, .real ha hb⟩
    | _ => cases h
  | symbol a =>
    cases w with
    | symbol b => exact ⟨_, .symbol a b⟩
    | _ => cases h
  | _ => cases h

/-- Nothing is true of `nan`. -/
theorem Comparison.yields_nan {x y : Binary64} (h : x = .nan ∨ y = .nan) (c : Comparison) :
    c.Yields (.real x) (.real y) false := by
  have hholds : c.holds none = false := by cases c <;> rfl
  show Primitive.comparing c [.real x, .real y] = _
  rw [Primitive.comparing, Binary64.compare?_eq_none h, hholds]

/-- What comes first is compared, and `nan` is not. -/
theorem Value.compares_of_less (h : less.Yields v w true) : v.Compares w .lt := by
  have hnan {x y : Binary64} (hxy : x = .nan ∨ y = .nan) :
      ¬less.Yields (.real x) (.real y) true := by
    intro htrue
    cases htrue.symm.trans (yields_nan hxy less)
  have hv : v ≠ .real .nan := by
    rintro rfl
    cases w with
    | real y => exact hnan (Or.inl rfl) h
    | _ => cases h
  have hw : w ≠ .real .nan := by
    rintro rfl
    cases v with
    | real x => exact hnan (Or.inr rfl) h
    | _ => cases h
  obtain ⟨o, ho⟩ := exists_compares h hv hw
  rwa [(less_yields_iff ho).1 h] at ho

/-! ### Laws -/

/-- What the comparisons of two values have to do with each other. -/
structure Comparison.Laws (v w : Value) : Prop where
  /-- One of the three holds and the others do not. -/
  one : (less.Yields v w true ∧ equal.Yields v w false ∧ greater.Yields v w false) ∨
    (less.Yields v w false ∧ equal.Yields v w true ∧ greater.Yields v w false) ∨
    (less.Yields v w false ∧ equal.Yields v w false ∧ greater.Yields v w true)
  atMost_iff : ∀ b, atMost.Yields v w b ↔ greater.Yields v w !b
  atLeast_iff : ∀ b, atLeast.Yields v w b ↔ less.Yields v w !b
  less_swap : ∀ b, less.Yields w v b ↔ greater.Yields v w b
  greater_swap : ∀ b, greater.Yields w v b ↔ less.Yields v w b
  equal_swap : ∀ b, equal.Yields w v b ↔ equal.Yields v w b
  equal_same : equal.Yields v w (v.same w)

theorem Value.Compares.laws (h : v.Compares w o) : Laws v w where
  one := by
    simp only [yields_iff h]
    cases o <;> simp [holds]
  atMost_iff b := by
    rw [yields_iff h, yields_iff h]
    cases o <;> cases b <;> simp [holds]
  atLeast_iff b := by
    rw [yields_iff h, yields_iff h]
    cases o <;> cases b <;> simp [holds]
  less_swap b := by
    rw [yields_iff h, yields_iff h.swap]
    cases o <;> rfl
  greater_swap b := by
    rw [yields_iff h, yields_iff h.swap]
    cases o <;> rfl
  equal_swap b := by
    rw [yields_iff h, yields_iff h.swap]
    cases o <;> rfl
  equal_same := by
    rw [yields_iff h, h.same_eq]
    cases o <;> rfl

/-- **The comparisons describe one order**: the laws of the five hold of all values that can be
compared unless one is `nan`, and what comes first comes before what comes after.  Numbers are in
the order of the number line, and symbols are in the order of their code points, which is that of
their bytes as well.  Nothing is true of `nan`. -/
theorem comparisons_one_order :
    (∀ c v w r, (Primitive.compare c).apply [v, w] = .ok r → v ≠ .real .nan → w ≠ .real .nan →
      Laws v w) ∧
    (∀ u v w, less.Yields u v true → less.Yields v w true → less.Yields u w true) ∧
    (∀ m n, less.Yields (.int m) (.int n) true ↔ m.toInt < n.toInt) ∧
    (∀ x y a b, x.value? = some a → y.value? = some b →
      (less.Yields (.real x) (.real y) true ↔ a < b)) ∧
    (∀ a b, less.Yields (.symbol a) (.symbol b) true ↔ Text.codePoints a < Text.codePoints b) ∧
    (∀ a b, less.Yields (.symbol a) (.symbol b) true ↔ Text.bytes a < Text.bytes b) ∧
    ∀ (c : Comparison) x y, x = .nan ∨ y = .nan → c.Yields (.real x) (.real y) false := by
  have hsymbol (a b : String) : less.Yields (.symbol a) (.symbol b) true ↔ a < b := by
    rw [less_yields_iff (.symbol a b), compare_lt_iff_lt]
  refine ⟨fun c v w r h hv hw => ?_, fun u v w huv hvw => ?_, fun m n => ?_, ?_, fun a b => ?_,
    fun a b => ?_, fun c x y h => yields_nan h c⟩
  · obtain ⟨o, ho⟩ := Value.exists_compares h hv hw
    exact ho.laws
  · have huw := (Value.compares_of_less huv).trans (Value.compares_of_less hvw) rfl rfl
    exact (less_yields_iff huw).2 rfl
  · rw [less_yields_iff (.int m n), compare_lt_iff_lt]
  · intro x y a b hx hy
    rw [less_yields_iff (.real hx hy), compare_lt_iff_lt]
  · rw [hsymbol, Text.lt_iff_codePoints_lt]
  · rw [hsymbol, Text.lt_iff_bytes_lt]

/-- Symbols of one character each: in bytes and as code points the second comes last, though not in
UTF-16, where it is a pair of surrogates. -/
theorem comparisons_one_order_surrogates : ∃ v w, v = .symbol "\uffff" ∧ w = .symbol "😀" ∧
    (∃ r, (Primitive.compare less).apply [v, w] = .ok r) ∧ v ≠ .real .nan ∧ w ≠ .real .nan ∧
      Laws v w ∧ less.Yields v w true ∧ Text.bytes "\uffff" = [0xEF, 0xBF, 0xBF] ∧
        Text.bytes "😀" = [0xF0, 0x9F, 0x98, 0x80] := by
  obtain ⟨hlaws, -, -, -, hpoints, -⟩ := comparisons_one_order
  refine ⟨_, _, rfl, rfl, ⟨_, rfl⟩, by simp, by simp, hlaws less _ _ _ rfl (by simp) (by simp),
    (hpoints _ _).2 (by decide), by decide, by decide⟩

end SmallLisp
