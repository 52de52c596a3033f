import Mathlib.Data.List.Forall2
import SmallLisp.Primitive.Apply

/-!
# Values that differ in their closures

`Alike R` relates values of one shape whose closures, place by place, are related by `R`.  Nothing
but a call looks into a closure, so alike values are treated alike: a primitive takes alike
arguments to alike results (`Primitive.apply_agree`), whatever `R` is.

Most primitives take no lists and no closures, and make numbers and truth values only, or one symbol
of two (`Scalar`); those that remain look at lists or move items about (`Primitive.apply_cases`).
As `R` is arbitrary, a primitive can make no closure: those in its result were among its arguments
(`Primitive.holds_of_apply`).
-/

namespace SmallLisp

namespace Value

/-- Whether a value is neither a list nor a closure. -/
def isAtomic : Value → Bool
  | list _ => false
  | closure _ _ _ _ => false
  | _ => true

/-- Whether a value is a number or a truth value. -/
def isPlain : Value → Bool
  | int _ => true
  | real _ => true
  | bool _ => true
  | _ => false

/-- Values made of numbers and truth values. -/
inductive Plain : Value → Prop
  | single {v : Value} (plain : v.isPlain = true) : Plain v
  | list {items : List Value} (plain : ∀ v ∈ items, Plain v) : Plain (.list items)

theorem isAtomic_of_isPlain {v : Value} (h : v.isPlain = true) : v.isAtomic = true := by
  cases v with
  | int => rfl
  | real => rfl
  | bool => rfl
  | _ => cases h

mutual

/-- Induction on values, with all items of a list at once. -/
theorem induction {P : Value → Prop} (atom : ∀ v, v.isAtomic = true → P v)
    (list : ∀ items, (∀ v ∈ items, P v) → P (.list items))
    (closure : ∀ stamp params body scope, P body → P (.closure stamp params body scope))
    (v : Value) : P v := by
  cases v with
  | list items => exact list items (induction_items atom list closure items)
  | closure stamp params body scope =>
    exact closure stamp params body scope (induction atom list closure body)
  | _ => exact atom _ rfl

theorem induction_items {P : Value → Prop} (atom : ∀ v, v.isAtomic = true → P v)
    (list : ∀ items, (∀ v ∈ items, P v) → P (.list items))
    (closure : ∀ stamp params body scope, P body → P (.closure stamp params body scope))
    (items : List Value) : ∀ v ∈ items, P v := by
  cases items with
  | nil =>
    intro v hv
    cases hv
  | cons v vs =>
    rw [List.forall_mem_cons]
    exact ⟨induction atom list closure v, induction_items atom list closure vs⟩

end

/-- Whether a value is another one or holds it as an item of a list, at any depth. -/
inductive Holds : Value → Value → Prop
  | self (v : Value) : Holds v v
  | item {items : List Value} {w v : Value} (mem : w ∈ items) (holds : Holds w v) :
      Holds (.list items) v

end Value

open Value

/-- Values of one shape whose closures are related. -/
inductive Alike (R : Value → Value → Prop) : Value → Value → Prop
  | atom {v : Value} (atomic : v.isAtomic = true) : Alike R v v
  | list {xs ys : List Value} (items : List.Forall₂ (Alike R) xs ys) :
      Alike R (.list xs) (.list ys)
  | closure {stamp stamp' : ℕ} {params params' : List String} {body body' : Value}
      {scope scope' : FrameId}
      (related : R (.closure stamp params body scope) (.closure stamp' params' body' scope')) :
      Alike R (.closure stamp params body scope) (.closure stamp' params' body' scope')

/-- Results that are alike, or the same error. -/
inductive Agree {α β : Type} (Q : α → β → Prop) : Except Error α → Except Error β → Prop
  | ok {a : α} {b : β} (related : Q a b) : Agree Q (.ok a) (.ok b)
  | error (x : Error) : Agree Q (.error x) (.error x)

namespace Alike

variable {R : Value → Value → Prop}

/-- A value is like itself if its closures are related to themselves. -/
theorem self {v : Value} (h : ∀ stamp params body scope,
    Holds v (.closure stamp params body scope) →
      R (.closure stamp params body scope) (.closure stamp params body scope)) :
    Alike R v v := by
  induction v using Value.induction with
  | atom v atomic => exact Alike.atom atomic
  | list items ih =>
    apply Alike.list
    rw [List.forall₂_same]
    intro v hv
    apply ih v hv
    intro stamp params body scope hheld
    exact h stamp params body scope (Holds.item hv hheld)
  | closure stamp params body scope _ => exact Alike.closure (h _ _ _ _ (Holds.self _))

/-- Plain values have no closures that could differ. -/
theorem of_plain {v : Value} (h : Plain v) : Alike R v v := by
  induction h with
  | single plain => exact Alike.atom (isAtomic_of_isPlain plain)
  | list _ ih => exact Alike.list (List.forall₂_same.2 ih)

/-- Each closure of a value has one that it is related to. -/
theorem related_of_holds {v w : Value} (h : Alike R v w) {stamp : ℕ} {params : List String}
    {body : Value} {scope : FrameId} (hv : Holds v (.closure stamp params body scope)) :
    ∃ c, Holds w c ∧ R (.closure stamp params body scope) c := by
  generalize hc : Value.closure stamp params body scope = c at hv
  induction hv generalizing w with
  | self v =>
    subst hc
    cases h with
    | atom atomic => cases atomic
    | closure related => exact ⟨_, Holds.self _, related⟩
  | item mem _ ih =>
    cases h with
    | atom atomic => cases atomic
    | @list xs ys items =>
      obtain ⟨i, hi, rfl⟩ := List.mem_iff_getElem.1 mem
      have hitem := (List.forall₂_iff_get.1 items).2 i hi (items.length_eq ▸ hi)
      obtain ⟨c', hheld, hrelated⟩ := ih hitem hc
      exact ⟨c', Holds.item (List.get_mem _ _) hheld, hrelated⟩

end Alike

/-! ### Primitives on single values -/

/-- A result of arguments that are neither lists nor closures: a plain value, or two symbols
joined. -/
inductive ScalarResult (args : List Value) : Primitive.Result → Prop
  | reject : ScalarResult args (.error .invalidInput)
  | make {w : Value} (atomic : ∀ v ∈ args, v.isAtomic = true) (plain : Plain w) :
      ScalarResult args (.ok w)
  | join {a b : String} (symbols : args = [.symbol a, .symbol b]) :
      ScalarResult args (.ok (.symbol (a ++ b)))

/-- Whether a primitive rejects all lists and closures, and makes plain values or joins symbols. -/
def Scalar (g : List Value → Primitive.Result) : Prop := ∀ args, ScalarResult args (g args)

theorem ScalarResult.single {args : List Value} {w : Value}
    (atomic : ∀ v ∈ args, v.isAtomic = true) (hw : w.isPlain = true) :
    ScalarResult args (.ok w) :=
  .make atomic (.single hw)

theorem ScalarResult.eq_reject {args : List Value} {r : Primitive.Result}
    (h : ScalarResult args r) (hargs : ¬ ∀ v ∈ args, v.isAtomic = true) :
    r = .error .invalidInput := by
  cases h with
  | reject => rfl
  | make atomic => exact absurd atomic hargs
  | join symbols =>
    subst symbols
    exact absurd (by simp [isAtomic]) hargs

theorem Value.isPlain_ofInt (z : Int) : (Value.ofInt z).isPlain = true := by
  unfold Value.ofInt
  split_ifs <;> rfl

/-- Only numbers can be taken as floating-point numbers. -/
theorem Value.toReal_cases (v : Value) :
    v.toReal = .error .invalidInput ∨ v.isAtomic = true ∧ ∃ x, v.toReal = .ok x := by
  cases v with
  | int n => exact Or.inr ⟨rfl, _, rfl⟩
  | real x => exact Or.inr ⟨rfl, _, rfl⟩
  | _ => exact Or.inl rfl

namespace Primitive

theorem scalar_onReal (f : Binary64 → Binary64) : Scalar (onReal f) := by
  intro args
  unfold onReal
  split
  · rename_i x
    rcases x.toReal_cases with hx | ⟨hatomic, y, hx⟩
    · rw [hx]
      exact .reject
    · rw [hx]
      exact .single (by simpa using hatomic) rfl
  · exact .reject

theorem scalar_onReals (f : Binary64 → Binary64 → Binary64) : Scalar (onReals f) := by
  intro args
  unfold onReals
  split
  · rename_i x y
    rcases x.toReal_cases with hx | ⟨hxatomic, a, hx⟩
    · rw [hx]
      exact .reject
    · rcases y.toReal_cases with hy | ⟨hyatomic, b, hy⟩
      · rw [hx, hy]
        exact .reject
      · rw [hx, hy]
        exact .single (by simpa using ⟨hxatomic, hyatomic⟩) rfl
  · exact .reject

theorem scalar_arithmetic (exact' : Int → Int → Int)
    (approximate : Binary64 → Binary64 → Binary64) : Scalar (arithmetic exact' approximate) := by
  intro args
  unfold arithmetic
  split
  · exact .single (by simp [isAtomic]) (isPlain_ofInt _)
  · exact scalar_onReals approximate [_, _]
  · exact .reject

theorem scalar_signed (exact' : Int → Int) (approximate : Binary64 → Binary64) :
    Scalar (signed exact' approximate) := by
  intro args
  unfold signed
  split
  · exact .single (by simp [isAtomic]) (isPlain_ofInt _)
  · exact .single (by simp [isAtomic]) rfl
  · exact .reject

theorem scalar_addition : Scalar addition := by
  intro args
  unfold addition
  split
  · exact .join rfl
  · exact scalar_arithmetic _ _ _

theorem scalar_subtraction : Scalar subtraction := by
  intro args
  unfold subtraction
  split
  · exact scalar_signed _ _ _
  · exact scalar_arithmetic _ _ _

theorem scalar_division : Scalar division := by
  intro args
  unfold division
  split
  · split_ifs
    · exact .reject
    · exact .single (by simp [isAtomic]) (isPlain_ofInt _)
  · exact scalar_arithmetic _ _ _

theorem scalar_modulo : Scalar modulo := by
  intro args
  unfold modulo
  split
  · split_ifs
    · exact .reject
    · exact .single (by simp [isAtomic]) (isPlain_ofInt _)
  · exact .reject

theorem scalar_comparing (c : Comparison) : Scalar (comparing c) := by
  intro args
  unfold comparing
  split
  · exact .single (by simp [isAtomic]) rfl
  · exact .single (by simp [isAtomic]) rfl
  · exact .single (by simp [isAtomic]) rfl
  · exact .reject

theorem scalar_negation : Scalar negation := by
  intro args
  unfold negation
  split
  · exact .single (by simp [isAtomic]) rfl
  · exact .single (by simp [isAtomic]) rfl
  · exact .single (by simp [isAtomic]) rfl
  · split_ifs
    · exact .single (by simp [isAtomic]) rfl
    · exact .single (by simp [isAtomic]) rfl
    · exact .reject
  · exact .reject

theorem scalar_classifying (test : Binary64 → Bool) : Scalar (classifying test) := by
  intro args
  unfold classifying
  split
  · exact .single (by simp [isAtomic]) rfl
  · exact .single (by simp [isAtomic]) rfl
  · exact .reject

theorem scalar_power : Scalar power := by
  intro args
  unfold power
  split
  · split <;> exact .single (by simp [isAtomic]) rfl
  · exact scalar_onReals Binary64.pow [_, _]
  · exact .reject

theorem scalar_scaling : Scalar scaling := by
  intro args
  unfold scaling
  split
  · rename_i x e
    rcases x.toReal_cases with hx | ⟨hatomic, a, hx⟩
    · rw [hx]
      exact .reject
    · rw [hx]
      exact .single (by simpa [isAtomic] using hatomic) rfl
  · exact .reject

theorem scalar_splitExponentOf : Scalar splitExponentOf := by
  intro args
  unfold splitExponentOf
  split
  · rename_i x
    rcases x.toReal_cases with hx | ⟨hatomic, a, hx⟩
    · rw [hx]
      exact .reject
    · rw [hx]
      refine .make (by simpa using hatomic) (.list ?_)
      simp only [List.mem_cons, List.not_mem_nil, or_false]
      rintro v (rfl | rfl)
      · exact .single rfl
      · exact .single rfl
  · exact .reject

theorem isPlain_intFactorial (n : ℕ) : (intFactorial n).isPlain = true := by
  induction n with
  | zero => rfl
  | succ n ih =>
    unfold intFactorial
    split
    · exact isPlain_ofInt _
    · rfl
    · exact ih

theorem scalar_factorialOf : Scalar factorialOf := by
  intro args
  unfold factorialOf
  split
  · split_ifs
    · exact .reject
    · exact .single (by simp [isAtomic]) rfl
    · exact .single (by simp [isAtomic]) (isPlain_intFactorial _)
  · split
    · exact .single (by simp [isAtomic]) rfl
    · exact .reject
  · exact .reject

theorem splitNumbers_cases (args : List Value) : splitNumbers args = .error .invalidInput ∨
    (∀ v ∈ args, v.isAtomic = true) ∧ ∃ numbers, splitNumbers args = .ok numbers := by
  induction args with
  | nil => exact Or.inr ⟨by simp, _, rfl⟩
  | cons v args ih =>
    cases v with
    | int n =>
      rcases ih with h | ⟨hatomic, numbers, h⟩
      · left
        rw [splitNumbers, h]
        rfl
      · right
        rw [splitNumbers, h]
        exact ⟨List.forall_mem_cons.2 ⟨rfl, hatomic⟩, _, rfl⟩
    | real x =>
      rcases ih with h | ⟨hatomic, numbers, h⟩
      · left
        rw [splitNumbers, h]
        rfl
      · right
        rw [splitNumbers, h]
        exact ⟨List.forall_mem_cons.2 ⟨rfl, hatomic⟩, _, rfl⟩
    | _ => exact Or.inl rfl

theorem isPlain_of_ofNumbers {x : Extremum} {ints : List Int64} {reals : List Binary64} {v : Value}
    (h : x.ofNumbers ints reals = some v) : v.isPlain = true := by
  unfold Extremum.ofNumbers at h
  split at h
  · split_ifs at h <;> exact Option.some.inj h ▸ rfl
  · exact Option.some.inj h ▸ rfl
  · exact Option.some.inj h ▸ rfl
  · cases h

theorem scalar_choosing (x : Extremum) : Scalar (choosing x) := by
  intro args
  unfold choosing
  rcases splitNumbers_cases args with h | ⟨hatomic, ⟨ints, reals⟩, h⟩
  · rw [h]
    exact .reject
  · rw [h]
    rcases hv : x.ofNumbers ints reals with _ | v
    · simp only [bind, Except.bind, hv]
      exact .reject
    · simp only [bind, Except.bind, hv]
      exact .single hatomic (isPlain_of_ofNumbers hv)

/-- What holds of all scalar functions, and of the few others, holds of all primitives. -/
theorem apply_cases (P : (List Value → Result) → Prop) (scalar : ∀ {g}, Scalar g → P g)
    (append : P appending) (car : P first) (cdr : P rest) (length : P counting)
    (list : P fun args => .ok (.list args)) (isList : P (testing Value.isList))
    (isNumber : P (testing Value.isNumber)) (fsum : P summing) (p : Primitive) : P p.apply := by
  cases p with
  | add => exact scalar scalar_addition
  | subtract => exact scalar scalar_subtraction
  | multiply => exact scalar (scalar_arithmetic _ _)
  | divide => exact scalar scalar_division
  | remainder => exact scalar scalar_modulo
  | compare c => exact scalar (scalar_comparing c)
  | abs => exact scalar (scalar_signed (fun z => (z.natAbs : Int)) Binary64.abs)
  | append => exact append
  | car => exact car
  | cdr => exact cdr
  | length => exact length
  | list => exact list
  | isList => exact isList
  | extremum x => exact scalar (scalar_choosing x)
  | not => exact scalar scalar_negation
  | isNumber => exact isNumber
  | round => exact scalar (scalar_signed _ _)
  | unary f => exact scalar (scalar_onReal _)
  | binary f => exact scalar (scalar_onReals _)
  | copysign => exact scalar (scalar_arithmetic _ _)
  | pow => exact scalar scalar_power
  | factorial => exact scalar scalar_factorialOf
  | frexp => exact scalar scalar_splitExponentOf
  | ldexp => exact scalar scalar_scaling
  | fsum => exact fsum
  | isinf => exact scalar (scalar_classifying _)
  | isnan => exact scalar (scalar_classifying _)

end Primitive

/-! ### Alike arguments -/

section
variable {R : Value → Value → Prop} {xs ys : List Value}

namespace Alike

theorem isAtomic_eq {v w : Value} (h : Alike R v w) : v.isAtomic = w.isAtomic := by
  cases h <;> rfl

theorem eq_of_isAtomic {v w : Value} (h : Alike R v w) (hv : v.isAtomic = true) : v = w := by
  cases h with
  | atom => rfl
  | list => cases hv
  | closure => cases hv

theorem list_left_iff {w : Value} :
    Alike R (.list xs) w ↔ ∃ ys, w = .list ys ∧ List.Forall₂ (Alike R) xs ys := by
  constructor
  · rintro (⟨⟨⟩⟩ | ⟨items⟩)
    exact ⟨_, rfl, items⟩
  · rintro ⟨ys, rfl, items⟩
    exact Alike.list items

theorem list_right_iff {v : Value} :
    Alike R v (.list ys) ↔ ∃ xs, v = .list xs ∧ List.Forall₂ (Alike R) xs ys := by
  constructor
  · rintro (⟨⟨⟩⟩ | ⟨items⟩)
    exact ⟨_, rfl, items⟩
  · rintro ⟨xs, rfl, items⟩
    exact Alike.list items

/-- Alike lists of values that are neither lists nor closures are the same. -/
theorem eq_of_all_isAtomic (h : List.Forall₂ (Alike R) xs ys)
    (hxs : ∀ v ∈ xs, v.isAtomic = true) : xs = ys := by
  induction h with
  | nil => rfl
  | cons head _ ih =>
    rw [List.forall_mem_cons] at hxs
    rw [head.eq_of_isAtomic hxs.1, ih hxs.2]

theorem all_isAtomic_iff (h : List.Forall₂ (Alike R) xs ys) :
    (∀ v ∈ xs, v.isAtomic = true) ↔ ∀ v ∈ ys, v.isAtomic = true := by
  induction h with
  | nil => simp
  | cons head _ ih => rw [List.forall_mem_cons, List.forall_mem_cons, head.isAtomic_eq, ih]

end Alike

/-- A primitive on single values takes alike arguments to alike results. -/
theorem Scalar.agree {g : List Value → Primitive.Result} (hg : Scalar g)
    (h : List.Forall₂ (Alike R) xs ys) : Agree (Alike R) (g xs) (g ys) := by
  by_cases hxs : ∀ v ∈ xs, v.isAtomic = true
  · obtain rfl := Alike.eq_of_all_isAtomic h hxs
    generalize g xs = r, hg xs = hr
    cases hr with
    | reject => exact .error _
    | make _ plain => exact .ok (Alike.of_plain plain)
    | join => exact .ok (Alike.atom rfl)
  · rw [(hg xs).eq_reject hxs, (hg ys).eq_reject (mt (Alike.all_isAtomic_iff h).2 hxs)]
    exact .error _

namespace Primitive

theorem toReal_eq {v w : Value} (h : Alike R v w) : v.toReal = w.toReal := by
  cases h <;> rfl

theorem appending_agree (h : List.Forall₂ (Alike R) xs ys) :
    Agree (Alike R) (appending xs) (appending ys) := by
  unfold appending
  split
  · simp only [List.forall₂_cons_left_iff, List.forall₂_nil_left_iff, Alike.list_left_iff] at h
    obtain ⟨_, _, ⟨as, rfl, has⟩, ⟨_, _, ⟨bs, rfl, hbs⟩, rfl, rfl⟩, rfl⟩ := h
    exact .ok (Alike.list (List.rel_append has hbs))
  · rename_i hxs
    split
    · simp only [List.forall₂_cons_right_iff, List.forall₂_nil_right_iff,
        Alike.list_right_iff] at h
      obtain ⟨_, _, ⟨as, rfl, has⟩, ⟨_, _, ⟨bs, rfl, hbs⟩, rfl, rfl⟩, rfl⟩ := h
      exact absurd rfl (hxs _ _)
    · exact .error _

/-- A primitive on one list takes alike arguments to alike results if it does so with the items. -/
theorem agree_of_one_list {g : List Value → Result}
    (hother : ∀ args, (∀ items, args ≠ [.list items]) → g args = .error .invalidInput)
    (hitems : ∀ {as bs}, List.Forall₂ (Alike R) as bs →
      Agree (Alike R) (g [.list as]) (g [.list bs]))
    (h : List.Forall₂ (Alike R) xs ys) : Agree (Alike R) (g xs) (g ys) := by
  by_cases hxs : ∃ items, xs = [.list items]
  · obtain ⟨as, rfl⟩ := hxs
    simp only [List.forall₂_cons_left_iff, List.forall₂_nil_left_iff, Alike.list_left_iff] at h
    obtain ⟨_, _, ⟨bs, rfl, hbs⟩, rfl, rfl⟩ := h
    exact hitems hbs
  · have hys : ∀ items, ys ≠ [.list items] := by
      rintro bs rfl
      simp only [List.forall₂_cons_right_iff, List.forall₂_nil_right_iff,
        Alike.list_right_iff] at h
      obtain ⟨_, _, ⟨as, rfl, has⟩, rfl, rfl⟩ := h
      exact hxs ⟨as, rfl⟩
    rw [hother xs (by simpa using hxs), hother ys hys]
    exact .error _

theorem first_agree (h : List.Forall₂ (Alike R) xs ys) :
    Agree (Alike R) (first xs) (first ys) := by
  refine agree_of_one_list (fun args hargs => ?_) (fun hitems => ?_) h
  · unfold first
    split
    · exact absurd rfl (hargs _)
    · rfl
  · cases hitems with
    | nil => exact .error _
    | cons hx _ => exact .ok hx

theorem rest_agree (h : List.Forall₂ (Alike R) xs ys) : Agree (Alike R) (rest xs) (rest ys) := by
  refine agree_of_one_list (fun args hargs => ?_) (fun hitems => ?_) h
  · unfold rest
    split
    · exact absurd rfl (hargs _)
    · rfl
  · cases hitems with
    | nil => exact .error _
    | cons _ hrest => exact .ok (Alike.list hrest)

theorem counting_agree (h : List.Forall₂ (Alike R) xs ys) :
    Agree (Alike R) (counting xs) (counting ys) := by
  refine agree_of_one_list (fun args hargs => ?_) (fun hitems => ?_) h
  · unfold counting
    split
    · exact absurd rfl (hargs _)
    · rfl
  · rw [counting, counting, hitems.length_eq]
    exact .ok (Alike.atom rfl)

theorem allInts?_eq (h : List.Forall₂ (Alike R) xs ys) : allInts? xs = allInts? ys := by
  induction h with
  | nil => rfl
  | @cons v w _ _ hx _ ih =>
    cases hx with
    | atom =>
      cases v with
      | int n => rw [allInts?, allInts?, ih]
      | _ => rfl
    | list => rfl
    | closure => rfl

theorem mapM_toReal_eq (h : List.Forall₂ (Alike R) xs ys) :
    xs.mapM Value.toReal = ys.mapM Value.toReal := by
  induction h with
  | nil => rfl
  | cons hx _ ih => rw [List.mapM_cons, List.mapM_cons, toReal_eq hx, ih]

theorem summing_list (items : List Value) : summing [.list items] = match allInts? items with
    | some ints => .ok (.ofInt (ints.foldr (· + ·) 0))
    | none => do
      let reals ← items.mapM Value.toReal
      return .real (reals.foldl Binary64.add (.zero true)) := rfl

theorem summing_agree (h : List.Forall₂ (Alike R) xs ys) :
    Agree (Alike R) (summing xs) (summing ys) := by
  refine agree_of_one_list (fun args hargs => ?_) (fun {as bs} hitems => ?_) h
  · unfold summing
    split
    · exact absurd rfl (hargs _)
    · rfl
  · rw [summing_list, summing_list, allInts?_eq hitems, mapM_toReal_eq hitems]
    rcases allInts? bs with _ | ints
    · rcases bs.mapM Value.toReal with x | reals
      · exact .error x
      · exact .ok (Alike.atom rfl)
    · exact .ok (Alike.of_plain (.single (isPlain_ofInt _)))

theorem testing_agree {test : Value → Bool} (htest : ∀ {v w}, Alike R v w → test v = test w)
    (h : List.Forall₂ (Alike R) xs ys) : Agree (Alike R) (testing test xs) (testing test ys) := by
  rcases h with _ | ⟨hx, _ | ⟨hy, h⟩⟩
  · exact .error _
  · rw [testing, testing, htest hx]
    exact .ok (Alike.atom rfl)
  · exact .error _

/-- **Primitives cannot look into closures**: they take alike arguments to alike results. -/
theorem apply_agree (p : Primitive) (h : List.Forall₂ (Alike R) xs ys) :
    Agree (Alike R) (p.apply xs) (p.apply ys) := by
  have hlist : ∀ {v w}, Alike R v w → v.isList = w.isList := by
    rintro v w (_ | _ | _) <;> rfl
  have hnumber : ∀ {v w}, Alike R v w → v.isNumber = w.isNumber := by
    rintro v w (_ | _ | _) <;> rfl
  exact apply_cases (fun g => Agree (Alike R) (g xs) (g ys)) (fun hg => hg.agree h)
    (appending_agree h) (first_agree h) (rest_agree h) (counting_agree h) (.ok (Alike.list h))
    (testing_agree hlist h) (testing_agree hnumber h) (summing_agree h) p

end Primitive

end

/-- A primitive makes no closure: those in its result were in its arguments. -/
theorem Primitive.holds_of_apply {p : Primitive} {args : List Value} {v : Value}
    (h : p.apply args = .ok v) {stamp : ℕ} {params : List String} {body : Value} {scope : FrameId}
    (hv : Holds v (.closure stamp params body scope)) :
    ∃ w ∈ args, Holds w (.closure stamp params body scope) := by
  -- Arguments are like themselves with closures related only to themselves and only if they are
  -- in an argument.
  let R : Value → Value → Prop := fun c c' => c = c' ∧ ∃ w ∈ args, Holds w c
  have hargs : List.Forall₂ (Alike R) args args := by
    rw [List.forall₂_same]
    intro w hw
    apply Alike.self
    intro stamp params body scope hheld
    exact ⟨rfl, w, hw, hheld⟩
  have hagree := p.apply_agree hargs
  rw [h] at hagree
  cases hagree with
  | ok related =>
    obtain ⟨c, -, -, hfound⟩ := related.related_of_holds hv
    exact hfound

end SmallLisp
