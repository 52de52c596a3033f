import SmallLisp.Proofs.Extremum
import SmallLisp.Proofs.Failure

/-!
# Signatures

What arguments a primitive takes is a matter of their number and their kinds (`Fit`), but for
division by the integer zero and for the primitives that take any number of arguments.
`Primitive.Accepts` lists the signatures.

Each function behind the primitives is defined on just its signature, by its own cases: where it has
a result, the arguments fit, and where it falls through to the last case, arguments that fit would
have been met before (`defined`, `undefined`).  As a primitive fails in one way only
(`Primitive.rejecting_apply`), this settles every call (`apply_ok_iff_accepts`).
-/

namespace SmallLisp

/-! ### Kinds of arguments -/

/-- What a primitive can ask of an argument. -/
inductive Kind where
  | any
  | number
  | int
  | real
  | symbol
  /-- A natural number, in either representation. -/
  | natural
  /-- What has a truth value: truth values, their names, and numbers. -/
  | truth
  | list
  | nonempty
  /-- A list of numbers. -/
  | numbers

/-- Whether a value is of a kind. -/
def Kind.Admits : Kind → Value → Prop
  | any, _ => True
  | number, v => v.isNumber = true
  | int, v => ∃ n, v = .int n
  | real, v => ∃ x, v = .real x
  | symbol, v => ∃ name, v = .symbol name
  | natural, v => ∃ n : ℕ, v.value? = some (.ofRat n)
  | truth, v => (∃ b, v = .bool b) ∨ v.isNumber = true ∨ v = .symbol "true" ∨ v = .symbol "false"
  | list, v => ∃ items, v = .list items
  | nonempty, v => ∃ item items, v = .list (item :: items)
  | numbers, v => ∃ items, v = .list items ∧ ∀ item ∈ items, item.isNumber = true

/-- Whether there are as many arguments as kinds, each of its own. -/
def Fit (kinds : List Kind) (args : List Value) : Prop :=
  List.Forall₂ Kind.Admits kinds args

@[simp] theorem fit_nil_iff {args : List Value} : Fit [] args ↔ args = [] :=
  List.forall₂_nil_left_iff

@[simp] theorem fit_cons_iff {kind : Kind} {kinds : List Kind} {v : Value} {args : List Value} :
    Fit (kind :: kinds) (v :: args) ↔ kind.Admits v ∧ Fit kinds args :=
  List.forall₂_cons

theorem Fit.exists_one {kind : Kind} {args : List Value} (h : Fit [kind] args) :
    ∃ v, args = [v] ∧ kind.Admits v := by
  obtain ⟨v, rest, hv, hrest, rfl⟩ := List.forall₂_cons_left_iff.1 h
  obtain rfl := fit_nil_iff.1 hrest
  exact ⟨v, rfl, hv⟩

theorem Fit.exists_two {kind kind' : Kind} {args : List Value} (h : Fit [kind, kind'] args) :
    ∃ v w, args = [v, w] ∧ kind.Admits v ∧ kind'.Admits w := by
  obtain ⟨v, rest, hv, hrest, rfl⟩ := List.forall₂_cons_left_iff.1 h
  obtain ⟨w, rfl, hw⟩ := Fit.exists_one hrest
  exact ⟨v, w, rfl, hv, hw⟩

theorem not_fit_one {kind : Kind} {args : List Value} (hne : ∀ v, args ≠ [v]) :
    ¬Fit [kind] args := by
  intro h
  obtain ⟨v, rfl, -⟩ := h.exists_one
  exact hne v rfl

theorem not_fit_two {kind kind' : Kind} {args : List Value} (hne : ∀ v w, args ≠ [v, w]) :
    ¬Fit [kind, kind'] args := by
  intro h
  obtain ⟨v, w, rfl, -⟩ := h.exists_two
  exact hne v w rfl

theorem not_fit_number {args : List Value} (hint : ∀ n, args ≠ [.int n])
    (hreal : ∀ x, args ≠ [.real x]) : ¬Fit [.number] args := by
  intro h
  obtain ⟨v, rfl, hv⟩ := h.exists_one
  cases v with
  | int n => exact hint n rfl
  | real x => exact hreal x rfl
  | _ => cases hv

/-- Two arguments are not of a kind whose values share a constructor, unless it made both. -/
theorem not_fit_same {α : Type} (c : α → Value) {kind : Kind}
    (hkind : kind.Admits = fun v => ∃ a, v = c a) {args : List Value}
    (hne : ∀ a b, args ≠ [c a, c b]) : ¬Fit [kind, kind] args := by
  intro h
  obtain ⟨v, w, rfl, hv, hw⟩ := h.exists_two
  rw [hkind] at hv hw
  obtain ⟨a, rfl⟩ := hv
  obtain ⟨b, rfl⟩ := hw
  exact hne a b rfl

namespace Primitive

/-- The arguments that a primitive takes. -/
def Accepts : Primitive → List Value → Prop
  | add, args => Fit [.number, .number] args ∨ Fit [.symbol, .symbol] args
  | subtract, args => Fit [.number] args ∨ Fit [.number, .number] args
  | multiply, args => Fit [.number, .number] args
  | divide, args => Fit [.number, .number] args ∧ ∀ n, args ≠ [.int n, .int 0]
  | remainder, args => Fit [.int, .int] args ∧ ∀ n, args ≠ [.int n, .int 0]
  | compare _, args => Fit [.int, .int] args ∨ Fit [.real, .real] args ∨ Fit [.symbol, .symbol] args
  | abs, args => Fit [.number] args
  | append, args => Fit [.list, .list] args
  | car, args => Fit [.nonempty] args
  | cdr, args => Fit [.nonempty] args
  | length, args => Fit [.list] args
  | list, _ => True
  | isList, args => Fit [.any] args
  | extremum _, args => args ≠ [] ∧ ∀ v ∈ args, v.isNumber = true
  | not, args => Fit [.truth] args
  | isNumber, args => Fit [.any] args
  | round, args => Fit [.number] args
  | unary _, args => Fit [.number] args
  | binary _, args => Fit [.number, .number] args
  | copysign, args => Fit [.number, .number] args
  | pow, args => Fit [.number, .number] args
  | factorial, args => Fit [.natural] args
  | frexp, args => Fit [.number] args
  | ldexp, args => Fit [.number, .int] args
  | fsum, args => Fit [.numbers] args
  | isinf, args => Fit [.number] args
  | isnan, args => Fit [.number] args

/-- Whether a function has a result for exactly some arguments. -/
def DefinedOn (A : List Value → Prop) (g : List Value → Result) : Prop :=
  ∀ args, (∃ v, g args = .ok v) ↔ A args

theorem defined {A : Prop} {v : Value} (h : A) : (∃ w, (.ok v : Result) = .ok w) ↔ A :=
  iff_of_true ⟨v, rfl⟩ h

theorem undefined {A : Prop} {x : Error} (h : ¬A) : (∃ w, (.error x : Result) = .ok w) ↔ A :=
  iff_of_false (fun ⟨_, hw⟩ => nomatch hw) h

/-! ### Numbers -/

theorem exists_map_eq_ok_iff {α β : Type} {x : Except Error α} {f : α → β} :
    (∃ b, f <$> x = .ok b) ↔ ∃ a, x = .ok a := by
  cases x with
  | error e => simp [Functor.map, Except.map]
  | ok a => simp [Functor.map, Except.map]

theorem exists_bind_eq_ok_iff {α β : Type} {x : Except Error α} {f : α → Except Error β} :
    (∃ b, x >>= f = .ok b) ↔ ∃ a, x = .ok a ∧ ∃ b, f a = .ok b := by
  cases x with
  | error e => simp [bind, Except.bind]
  | ok a => simp [bind, Except.bind]

theorem exists_toReal_eq_ok_iff {v : Value} : (∃ x, v.toReal = .ok x) ↔ v.isNumber = true := by
  cases v <;> simp [Value.toReal, Value.isNumber]

theorem definedOn_onReal (f : Binary64 → Binary64) : DefinedOn (Fit [.number]) (onReal f) := by
  intro args
  unfold onReal
  split
  · simp [exists_map_eq_ok_iff, exists_toReal_eq_ok_iff, Kind.Admits]
  · rename_i hne
    exact undefined (not_fit_one hne)

theorem definedOn_splitExponentOf : DefinedOn (Fit [.number]) splitExponentOf := by
  intro args
  unfold splitExponentOf
  split
  · simp [exists_map_eq_ok_iff, exists_toReal_eq_ok_iff, Kind.Admits]
  · rename_i hne
    exact undefined (not_fit_one hne)

theorem definedOn_onReals (f : Binary64 → Binary64 → Binary64) :
    DefinedOn (Fit [.number, .number]) (onReals f) := by
  intro args
  unfold onReals
  split
  · simp [exists_bind_eq_ok_iff, exists_map_eq_ok_iff, exists_toReal_eq_ok_iff, Kind.Admits]
  · rename_i hne
    exact undefined (not_fit_two hne)

theorem definedOn_scaling : DefinedOn (Fit [.number, .int]) scaling := by
  intro args
  unfold scaling
  split
  · simp [exists_map_eq_ok_iff, exists_toReal_eq_ok_iff, Kind.Admits]
  · rename_i hne
    refine undefined fun hfit => ?_
    obtain ⟨v, w, rfl, -, e, rfl⟩ := hfit.exists_two
    exact hne v e rfl

theorem definedOn_arithmetic (exact' : Int → Int → Int)
    (approximate : Binary64 → Binary64 → Binary64) :
    DefinedOn (Fit [.number, .number]) (arithmetic exact' approximate) := by
  intro args
  unfold arithmetic
  split
  · exact defined (by simp [Kind.Admits, Value.isNumber])
  · exact definedOn_onReals approximate [_, _]
  · rename_i hne
    exact undefined (not_fit_two hne)

theorem definedOn_power : DefinedOn (Fit [.number, .number]) power := by
  intro args
  unfold power
  split
  · split <;> exact defined (by simp [Kind.Admits, Value.isNumber])
  · exact definedOn_onReals Binary64.pow [_, _]
  · rename_i hne
    exact undefined (not_fit_two hne)

theorem definedOn_signed (exact' : Int → Int) (approximate : Binary64 → Binary64) :
    DefinedOn (Fit [.number]) (signed exact' approximate) := by
  intro args
  unfold signed
  split
  · exact defined (by simp [Kind.Admits, Value.isNumber])
  · exact defined (by simp [Kind.Admits, Value.isNumber])
  · rename_i hint hreal
    exact undefined (not_fit_number hint hreal)

theorem definedOn_classifying (test : Binary64 → Bool) :
    DefinedOn (Fit [.number]) (classifying test) := by
  intro args
  unfold classifying
  split
  · exact defined (by simp [Kind.Admits, Value.isNumber])
  · exact defined (by simp [Kind.Admits, Value.isNumber])
  · rename_i hint hreal
    exact undefined (not_fit_number hint hreal)

theorem definedOn_addition : DefinedOn add.Accepts addition := by
  intro args
  unfold addition
  split
  · exact defined (Or.inr (by simp [Kind.Admits]))
  · rename_i hne
    rw [definedOn_arithmetic, Accepts, or_iff_left (not_fit_same .symbol rfl hne)]

theorem definedOn_subtraction : DefinedOn subtract.Accepts subtraction := by
  intro args
  unfold subtraction
  split
  · rw [definedOn_signed, Accepts, or_iff_left (not_fit_two (by simp))]
  · rename_i hne
    rw [definedOn_arithmetic, Accepts, or_iff_right (not_fit_one hne)]

theorem definedOn_division : DefinedOn divide.Accepts division := by
  intro args
  unfold division
  split
  · rename_i a b
    split
    · rename_i hb
      refine undefined ?_
      rintro ⟨-, hzero⟩
      exact hzero a (by rw [hb])
    · rename_i hb
      exact defined (by simp [Accepts, Kind.Admits, Value.isNumber, hb])
  · -- Whatever else is divided, it is not by the integer zero of two integers.
    rename_i hne
    have hzero (n : Int64) : args ≠ [.int n, .int 0] := hne n 0
    rw [definedOn_arithmetic, Accepts, and_iff_left hzero]

theorem definedOn_modulo : DefinedOn remainder.Accepts modulo := by
  intro args
  unfold modulo
  split
  · rename_i a b
    split
    · rename_i hb
      refine undefined ?_
      rintro ⟨-, hzero⟩
      exact hzero a (by rw [hb])
    · rename_i hb
      exact defined (by simp [Accepts, Kind.Admits, hb])
  · rename_i hne
    exact undefined (mt And.left (not_fit_same .int rfl hne))

theorem definedOn_comparing (c : Comparison) : DefinedOn (compare c).Accepts (comparing c) := by
  intro args
  unfold comparing
  split
  · exact defined (Or.inl (by simp [Kind.Admits]))
  · exact defined (Or.inr (Or.inl (by simp [Kind.Admits])))
  · exact defined (Or.inr (Or.inr (by simp [Kind.Admits])))
  · rename_i hint hreal hsymbol
    refine undefined ?_
    rintro (hfit | hfit | hfit)
    · exact not_fit_same .int rfl hint hfit
    · exact not_fit_same .real rfl hreal hfit
    · exact not_fit_same .symbol rfl hsymbol hfit

theorem fit_natural_int_iff {n : Int64} : Fit [.natural] [.int n] ↔ 0 ≤ n.toInt := by
  simp only [fit_cons_iff, fit_nil_iff, Kind.Admits, Value.value?_int, Option.some.injEq,
    ExtendedRat.ofRat_inj, and_true]
  norm_cast
  constructor
  · rintro ⟨m, hm⟩
    rw [hm]
    exact Int.natCast_nonneg m
  · exact Int.eq_ofNat_of_zero_le

theorem fit_natural_real_iff {x : Binary64} :
    Fit [.natural] [.real x] ↔ ∃ n, x.toNat? = some n := by
  simp [Kind.Admits, Binary64.toNat?_eq_some_iff]

theorem definedOn_factorialOf : DefinedOn (Fit [.natural]) factorialOf := by
  intro args
  unfold factorialOf
  split
  · rename_i n
    rw [fit_natural_int_iff]
    split
    · exact undefined (by omega)
    · split <;> exact defined (by omega)
  · rename_i x
    rw [fit_natural_real_iff]
    split
    · rename_i n hn
      exact defined ⟨n, hn⟩
    · rename_i hnone
      exact undefined (by simp [hnone])
  · rename_i hint hreal
    refine undefined fun hfit => ?_
    obtain ⟨v, rfl, n, hn⟩ := hfit.exists_one
    cases v with
    | int n => exact hint n rfl
    | real x => exact hreal x rfl
    | _ => cases hn

theorem exists_splitNumbers_eq_ok_iff {args : List Value} :
    (∃ numbers, splitNumbers args = .ok numbers) ↔ ∀ v ∈ args, v.isNumber = true := by
  induction args with
  | nil => simp [splitNumbers]
  | cons v args ih =>
    rw [List.forall_mem_cons, ← ih]
    cases v <;> simp [splitNumbers, exists_map_eq_ok_iff, Value.isNumber]

/-- Something is chosen unless there is nothing to choose from. -/
theorem ofNumbers_eq_none_iff {x : Extremum} {ints : List Int64} {reals : List Binary64} :
    x.ofNumbers ints reals = none ↔ ints = [] ∧ reals = [] := by
  unfold Extremum.ofNumbers
  rcases ints with _ | ⟨n, ints⟩
  · rcases reals with _ | ⟨r, reals⟩ <;> simp [Extremum.best]
  · rcases reals with _ | ⟨r, reals⟩
    · simp [Extremum.best]
    · simp only [Extremum.best]
      split <;> simp

theorem definedOn_choosing (x : Extremum) : DefinedOn (extremum x).Accepts (choosing x) := by
  intro args
  constructor
  · intro h
    obtain ⟨⟨ints, reals⟩, hsplit, v, hv⟩ := exists_bind_eq_ok_iff.1 h
    refine ⟨?_, exists_splitNumbers_eq_ok_iff.1 ⟨_, hsplit⟩⟩
    rintro rfl
    cases hsplit
    cases hv
  · rintro ⟨hne, hnumbers⟩
    obtain ⟨ints, reals, hsplit, hints, hreals⟩ := exists_splitNumbers hnumbers
    -- An argument is among the integers or among the floating-point numbers.
    have hsome : x.ofNumbers ints reals ≠ none := by
      rw [Ne, ofNumbers_eq_none_iff]
      rintro ⟨rfl, rfl⟩
      obtain ⟨v, hv⟩ := List.exists_mem_of_ne_nil args hne
      have hnumber := hnumbers v hv
      cases v with
      | int n => exact List.not_mem_nil ((hints n).2 hv)
      | real r => exact List.not_mem_nil ((hreals r).2 hv)
      | _ => cases hnumber
    obtain ⟨v, hv⟩ := Option.ne_none_iff_exists'.1 hsome
    exact ⟨v, choosing_eq hsplit hv⟩

theorem definedOn_negation : DefinedOn (Fit [.truth]) negation := by
  intro args
  unfold negation
  split
  · exact defined (by simp [Kind.Admits])
  · exact defined (by simp [Kind.Admits, Value.isNumber])
  · exact defined (by simp [Kind.Admits, Value.isNumber])
  · split
    · rename_i htrue
      exact defined (by simp [Kind.Admits, htrue])
    · rename_i htrue
      split
      · rename_i hfalse
        exact defined (by simp [Kind.Admits, hfalse])
      · rename_i hfalse
        exact undefined (by simp [Kind.Admits, Value.isNumber, htrue, hfalse])
  · rename_i hbool hint hreal hsymbol
    refine undefined fun hfit => ?_
    obtain ⟨v, rfl, hv⟩ := hfit.exists_one
    cases v with
    | bool b => exact hbool b rfl
    | int n => exact hint n rfl
    | real x => exact hreal x rfl
    | symbol name => exact hsymbol name rfl
    | _ => simp [Kind.Admits, Value.isNumber] at hv

/-! ### Lists -/

theorem definedOn_appending : DefinedOn (Fit [.list, .list]) appending := by
  intro args
  unfold appending
  split
  · exact defined (by simp [Kind.Admits])
  · rename_i hne
    exact undefined (not_fit_same .list rfl hne)

theorem definedOn_first : DefinedOn (Fit [.nonempty]) first := by
  intro args
  unfold first
  split
  · exact defined (by simp [Kind.Admits])
  · rename_i hne
    refine undefined fun hfit => ?_
    obtain ⟨v, rfl, item, items, rfl⟩ := hfit.exists_one
    exact hne item items rfl

theorem definedOn_rest : DefinedOn (Fit [.nonempty]) rest := by
  intro args
  unfold rest
  split
  · exact defined (by simp [Kind.Admits])
  · rename_i hne
    refine undefined fun hfit => ?_
    obtain ⟨v, rfl, item, items, rfl⟩ := hfit.exists_one
    exact hne item items rfl

theorem definedOn_counting : DefinedOn (Fit [.list]) counting := by
  intro args
  unfold counting
  split
  · exact defined (by simp [Kind.Admits])
  · rename_i hne
    refine undefined fun hfit => ?_
    obtain ⟨v, rfl, items, rfl⟩ := hfit.exists_one
    exact hne items rfl

theorem definedOn_testing (test : Value → Bool) : DefinedOn (Fit [.any]) (testing test) := by
  intro args
  unfold testing
  split
  · exact defined (by simp [Kind.Admits])
  · rename_i hne
    exact undefined (not_fit_one hne)

theorem exists_mapM_toReal_eq_ok_iff {items : List Value} :
    (∃ reals, items.mapM Value.toReal = .ok reals) ↔ ∀ v ∈ items, v.isNumber = true := by
  induction items with
  | nil => simp [pure, Except.pure]
  | cons v items ih =>
    rw [List.forall_mem_cons, ← ih, ← exists_toReal_eq_ok_iff, List.mapM_cons]
    simp [exists_bind_eq_ok_iff, exists_map_eq_ok_iff]

theorem isNumber_of_allInts? {items : List Value} {ints : List Int}
    (h : allInts? items = some ints) : ∀ v ∈ items, v.isNumber = true := by
  fun_induction allInts? items generalizing ints with
  | case1 => simp
  | case2 n items ih =>
    obtain ⟨rest, hrest, -⟩ := Option.map_eq_some_iff.1 h
    exact List.forall_mem_cons.2 ⟨rfl, ih hrest⟩
  | case3 => cases h

theorem definedOn_summing : DefinedOn (Fit [.numbers]) summing := by
  intro args
  unfold summing
  split
  · rename_i items
    have hnumbers : Fit [.numbers] [.list items] ↔ ∀ v ∈ items, v.isNumber = true := by
      simp [Kind.Admits]
    rw [hnumbers]
    -- Integers are numbers, so nothing is accepted here that the other branch would refuse.
    split
    · rename_i hints
      exact defined (isNumber_of_allInts? hints)
    · simpa [exists_map_eq_ok_iff] using exists_mapM_toReal_eq_ok_iff
  · rename_i hne
    refine undefined fun hfit => ?_
    obtain ⟨v, rfl, items, rfl, -⟩ := hfit.exists_one
    exact hne items rfl

/-- Every primitive is defined on the arguments that it takes. -/
theorem definedOn_apply (p : Primitive) : DefinedOn p.Accepts p.apply := by
  cases p with
  | add => exact definedOn_addition
  | subtract => exact definedOn_subtraction
  | multiply => exact definedOn_arithmetic _ _
  | divide => exact definedOn_division
  | remainder => exact definedOn_modulo
  | compare c => exact definedOn_comparing c
  | abs => exact definedOn_signed (fun z => (z.natAbs : Int)) Binary64.abs
  | append => exact definedOn_appending
  | car => exact definedOn_first
  | cdr => exact definedOn_rest
  | length => exact definedOn_counting
  | list => exact fun args => defined trivial
  | isList => exact definedOn_testing _
  | extremum x => exact definedOn_choosing x
  | not => exact definedOn_negation
  | isNumber => exact definedOn_testing _
  | round => exact definedOn_signed _ _
  | unary f => exact definedOn_onReal _
  | binary f => exact definedOn_onReals _
  | copysign => exact definedOn_arithmetic _ _
  | pow => exact definedOn_power
  | factorial => exact definedOn_factorialOf
  | frexp => exact definedOn_splitExponentOf
  | ldexp => exact definedOn_scaling
  | fsum => exact definedOn_summing
  | isinf => exact definedOn_classifying _
  | isnan => exact definedOn_classifying _

end Primitive

/-- **Primitives have signatures**: a call has a value exactly if the primitive takes the arguments,
and all other calls are refused in the same words.  No call divides an integer by the integer
zero. -/
theorem apply_ok_iff_accepts (p : Primitive) (args : List Value) :
    ((∃ v, p.apply args = .ok v) ↔ p.Accepts args) ∧
      ((∃ x, p.apply args = .error x ∧ x.kind = .malformed ∧
        x.wording = "invalid procedure input") ↔ ¬p.Accepts args) ∧
      ∀ a b v, args = [.int a, .int b] → p = .divide ∨ p = .remainder →
        p.apply args = .ok v → b ≠ 0 := by
  have hdefined := p.definedOn_apply args
  refine ⟨hdefined, ?_, ?_⟩
  · -- A call that fails does so in the only way there is.
    rw [← hdefined]
    rcases hcall : p.apply args with x | v
    · obtain rfl := p.rejecting_apply hcall
      exact iff_of_true ⟨_, rfl, rfl, rfl⟩ fun ⟨v, hv⟩ => nomatch hv
    · exact iff_of_false (fun ⟨x, hx, _⟩ => nomatch hx) fun h => h ⟨v, rfl⟩
  · rintro a b v rfl hp hcall rfl
    have haccepts := hdefined.1 ⟨v, hcall⟩
    rcases hp with rfl | rfl
    · exact haccepts.2 a rfl
    · exact haccepts.2 a rfl

/-- Minus zero is a natural number, infinity is none, and minus two divides. -/
theorem apply_ok_iff_accepts_edges :
    (∃ v, Primitive.factorial.apply [.real (.zero true)] = .ok v) ∧
      (∃ x, Primitive.factorial.apply [.real (.infinity false)] = .error x ∧
        x.kind = .malformed ∧ x.wording = "invalid procedure input") ∧
      ∃ v, Primitive.remainder.apply [.int 7, .int (-2)] = .ok v ∧ (-2 : Int64) ≠ 0 := by
  refine ⟨(apply_ok_iff_accepts _ _).1.2 ?_, (apply_ok_iff_accepts _ _).2.1.2 ?_, ?_⟩
  · have hzero : (Binary64.zero true).toNat? = some 0 := by
      simp [Binary64.zero, Binary64.toNat?, Magnitude.zero]
    exact Primitive.fit_natural_real_iff.2 ⟨0, hzero⟩
  · intro haccepts
    obtain ⟨n, hn⟩ := Primitive.fit_natural_real_iff.1 haccepts
    cases hn
  · obtain ⟨hvalue, -, hnonzero⟩ := apply_ok_iff_accepts .remainder [.int 7, .int (-2)]
    obtain ⟨v, hv⟩ := hvalue.2 (by simp [Primitive.Accepts, Kind.Admits])
    exact ⟨v, hv, hnonzero 7 (-2) v rfl (Or.inr rfl) hv⟩

end SmallLisp
