import SmallLisp.Proofs.Binary64.Line
import SmallLisp.Proofs.Correspondence
import SmallLisp.Proofs.Equality
import SmallLisp.Proofs.Evolution
import SmallLisp.Proofs.Printed

/-!
# Equality as a partial equivalence

Values are equal in different ways (`Value.Equal`): lists item by item, floating-point numbers if
they are one number of the number line, closures if they have one stamp.  `Value.same` tests for
this (`Value.same_iff`), and so it is symmetric and transitive as each of the ways is.  It is not
reflexive, since `nan` is no number of the number line, but that is the only exception: a value
equals itself unless it holds `nan` (`Value.holdsNan_iff`).

The stamp of a closure stands for the closure itself.  A store takes a new one for every abstraction
that is evaluated and never goes back (`Store.Develops.stamps_le`), so that closures from two
evaluations differ, be their code the same.  The name of a primitive stands for the one primitive of
that name that a session has.

`Value.same_partial_equivalence` puts this together.
-/

namespace SmallLisp

namespace Value

/-! ### What it is to be equal -/

/-- Values that are equal. -/
inductive Equal : Value → Value → Prop
  | int (n : Int64) : Equal (.int n) (.int n)
  /-- Numbers with one place on the number line, which the two zeros have and `nan` has not. -/
  | real {x y : Binary64} {a : ExtendedRat} (left : x.value? = some a) (right : y.value? = some a) :
      Equal (.real x) (.real y)
  | bool (b : Bool) : Equal (.bool b) (.bool b)
  | symbol (name : String) : Equal (.symbol name) (.symbol name)
  | list {xs ys : List Value} (items : List.Forall₂ Equal xs ys) : Equal (.list xs) (.list ys)
  | primitive (p : Primitive) : Equal (.primitive p) (.primitive p)
  /-- Closures with one stamp, whatever their code. -/
  | closure {params params' : List String} {body body' : Value} {scope scope' : FrameId}
      (stamp : ℕ) : Equal (.closure stamp params body scope) (.closure stamp params' body' scope')

variable {u v w : Value}

theorem allSame_iff {xs ys : List Value} :
    allSame xs ys = true ↔ List.Forall₂ (fun x y => x.same y = true) xs ys := by
  induction xs generalizing ys with
  | nil => cases ys <;> simp [allSame]
  | cons x xs ih => cases ys <;> simp [allSame, ih]

theorem equal_of_same (h : v.same w = true) : Equal v w := by
  induction v using Value.induction generalizing w with
  | atom v atomic =>
    revert h
    fun_cases same v w with
    | case1 m n =>
      intro h
      obtain rfl := eq_of_beq h
      exact .int m
    | case2 x y =>
      intro h
      obtain ⟨a, hx, hy⟩ := Binary64.eqv_iff.1 h
      exact .real hx hy
    | case3 a b =>
      intro h
      obtain rfl := eq_of_beq h
      exact .bool a
    | case4 a b =>
      intro h
      obtain rfl := eq_of_beq h
      exact .symbol a
    | case5 => cases atomic
    | case6 p q =>
      intro h
      obtain rfl := eq_of_beq h
      exact .primitive p
    | case7 => cases atomic
    | case8 => exact nofun
  | list items ih =>
    cases w with
    | list ys =>
      exact .list (forall₂_imp_of_mem (allSame_iff.1 h) fun x hx _ => ih x hx)
    | _ => cases h
  | closure stamp params body scope ih =>
    cases w with
    | closure stamp' params' body' scope' =>
      obtain rfl : stamp = stamp' := eq_of_beq h
      exact .closure stamp
    | _ => cases h

namespace Equal

theorem same (h : Equal v w) : v.same w = true := by
  induction v using Value.induction generalizing w with
  | atom v atomic =>
    cases h with
    | int n => exact beq_self_eq_true n
    | real left right => exact Binary64.eqv_iff.2 ⟨_, left, right⟩
    | bool b => exact beq_self_eq_true b
    | symbol name => exact beq_self_eq_true name
    | list => cases atomic
    | primitive p => exact beq_self_eq_true p
    | closure => cases atomic
  | list xs ih =>
    cases h with
    | list items =>
      exact allSame_iff.2 (forall₂_imp_of_mem items fun x hx _ => ih x hx)
  | closure =>
    cases h with
    | closure => exact beq_self_eq_true _

theorem symm (h : Equal v w) : Equal w v := by
  induction v using Value.induction generalizing w with
  | atom v atomic =>
    cases h with
    | real left right => exact .real right left
    | list => cases atomic
    | closure => cases atomic
    | _ => constructor
  | list xs ih =>
    cases h with
    | list items =>
      exact .list (List.Forall₂.flip (forall₂_imp_of_mem items fun x hx _ => ih x hx))
  | closure =>
    cases h with
    | closure => exact .closure _

theorem trans (h : Equal u v) (h' : Equal v w) : Equal u w := by
  induction u using Value.induction generalizing v w with
  | atom u atomic =>
    cases h with
    | real left right =>
      cases h' with
      | real left' right' =>
        -- The number in the middle has one place only.
        obtain rfl := Option.some.inj (right.symm.trans left')
        exact .real left right'
    | list => cases atomic
    | closure => cases atomic
    | _ => exact h'
  | list xs ih =>
    cases h with
    | list items =>
      cases h' with
      | list items' =>
        have hboth := forall₂_comp ((List.forall₂_and_left _ _).2 ⟨ih, items⟩) items'
        exact .list (hboth.imp fun _ _ ⟨_, hv, hw⟩ => hv.1 hv.2 hw)
  | closure =>
    cases h with
    | closure =>
      cases h' with
      | closure => exact .closure _

/-- Equal values are made by one constructor. -/
theorem ctorIdx_eq (h : Equal v w) : v.ctorIdx = w.ctorIdx := by
  cases h <;> rfl

end Equal

/-- The test for equality tells whether values are equal. -/
theorem same_iff : v.same w = true ↔ Equal v w := ⟨equal_of_same, Equal.same⟩

/-! ### Values that differ from themselves -/

theorem anyHoldsNan_iff {vs : List Value} :
    anyHoldsNan vs = true ↔ ∃ v ∈ vs, v.holdsNan = true := by
  induction vs with
  | nil => simp [anyHoldsNan]
  | cons v vs ih => simp [anyHoldsNan, ih]

/-- To hold `nan` is to have it as a leaf. -/
theorem holdsNan_iff : v.holdsNan = true ↔ v.Holds (.real .nan) := by
  induction v using Value.induction with
  | atom v atomic =>
    cases v with
    | real x =>
      cases x with
      | nan => exact ⟨fun _ => .self _, fun _ => rfl⟩
      | _ => exact ⟨nofun, nofun⟩
    | list => cases atomic
    | closure => cases atomic
    | _ => exact ⟨nofun, nofun⟩
  | list items ih =>
    rw [holdsNan, anyHoldsNan_iff]
    constructor
    · rintro ⟨v, hv, hnan⟩
      exact .item hv ((ih v hv).1 hnan)
    · rintro (_ | ⟨hv, holds⟩)
      exact ⟨_, hv, (ih _ hv).2 holds⟩
  | closure => exact ⟨nofun, nofun⟩

end Value

/-! ### Stamps -/

/-- No change gives a stamp back. -/
theorem Effect.stamps_le_replay (s : Store) (log : List Effect) :
    s.stamps ≤ (replay s log).stamps := by
  induction log generalizing s with
  | nil => exact Nat.le_refl _
  | cons change log ih =>
    have hchange : s.stamps ≤ (apply s change).stamps := by
      cases change with
      | bind => exact Nat.le_refl _
      | frame => exact Nat.le_refl _
      | stamp => exact Nat.le_succ _
    exact Nat.le_trans hchange (ih _)

namespace Store

variable {s s' s₁ s₂ s₃ : Store} {v w : Value}

theorem Develops.stamps_le (h : s.Develops s') : s.stamps ≤ s'.stamps := by
  induction h with
  | refl => exact Nat.le_refl _
  | root _ ih => exact ih
  | eval _ _ _ _ n ih => exact Nat.le_trans ih (Effect.stamps_le_replay ..)

/-- Whether evaluating an abstraction somewhere in a store comes to a value and leaves a store. -/
def Makes (s : Store) (v : Value) (s' : Store) : Prop :=
  ∃ depth f params body,
    (eval depth f (.lambda params body)).run.run s = some (.ok (some v), s')

/-- The value is a closure with the next stamp, which is used up. -/
theorem Makes.exists_closure (h : s.Makes v s') :
    s' = s.stamp.2 ∧ ∃ params body f, v = .closure s.stamps params body f := by
  obtain ⟨depth, f, params, body, ran⟩ := h
  cases depth with
  | zero => cases ran
  | succ depth =>
    rw [run_eval_lambda] at ran
    cases ran
    exact ⟨rfl, params, body, f, rfl⟩

/-- Closures that are made one after the other differ. -/
theorem Makes.same_eq_false (h : s.Makes v s₁) (hs : s₁.Develops s₂) (h' : s₂.Makes w s₃) :
    v.same w = false := by
  obtain ⟨rfl, params, body, f, rfl⟩ := h.exists_closure
  obtain ⟨-, params', body', f', rfl⟩ := h'.exists_closure
  have hstamps : s.stamps + 1 ≤ s₂.stamps := hs.stamps_le
  exact beq_false_of_ne (by omega)

end Store

/-- **Equality is a partial equivalence**: it is symmetric and transitive, and a value equals itself
unless it is `nan` or holds it as an item of a list.  Values from different constructors are never
equal, an integer and a floating-point number among them.  Items are compared in their order,
numbers on the number line, and procedures by what they are: primitives by their names, one session
being meant, and closures by their stamps.  No two evaluations of abstractions make closures that
are equal, whatever comes between them. -/
theorem Value.same_partial_equivalence :
    (∀ v w : Value, v.same w = w.same v) ∧
    (∀ u v w : Value, u.same v = true → v.same w = true → u.same w = true) ∧
    (∀ v w : Value, v.same w = true → v.ctorIdx = w.ctorIdx) ∧
    (∀ v : Value, v.same v = true ↔ ¬v.Holds (.real .nan)) ∧
    (∀ v w : Value, v.same w = true ↔ v.Equal w) ∧
    ∀ (s s₁ s₂ s₃ : Store) (v w : Value), s.Makes v s₁ → s₁.Develops s₂ → s₂.Makes w s₃ →
      v.same w = false := by
  refine ⟨fun v w => ?_, fun u v w huv hvw => ?_, fun v w h => (same_iff.1 h).ctorIdx_eq,
    fun v => ?_, fun v w => same_iff, fun s s₁ s₂ s₃ v w hv hs hw => hv.same_eq_false hs hw⟩
  · rw [Bool.eq_iff_iff, same_iff, same_iff]
    exact ⟨Equal.symm, Equal.symm⟩
  · exact ((same_iff.1 huv).trans (same_iff.1 hvw)).same
  · rw [same_self, Bool.not_eq_true', ← Bool.not_eq_true, holdsNan_iff]

/-- An abstraction that is evaluated twice makes two closures, and each equals itself though there
is `nan` in its body.  A list with `nan` beside the closure does not. -/
theorem Value.same_partial_equivalence_twice : ∃ v w s s',
    (eval 1 0 (.lambda ["x"] (.real .nan))).run.run Store.empty.root.2 = some (.ok (some v), s) ∧
    (eval 1 0 (.lambda ["x"] (.real .nan))).run.run s = some (.ok (some w), s') ∧
      v.same v = true ∧ v.same w = false ∧
        (Value.list [v, .real .nan]).same (.list [v, .real .nan]) = false := by
  have hv := run_eval_lambda 0 0 ["x"] (.real .nan) Store.empty.root.2
  have hw := run_eval_lambda 0 0 ["x"] (.real .nan) Store.empty.root.2.stamp.2
  obtain ⟨-, -, -, hself, -, hdiffer⟩ := Value.same_partial_equivalence
  refine ⟨_, _, _, _, hv, hw, (hself _).2 nofun, ?_, ?_⟩
  · exact hdiffer _ _ _ _ _ _ ⟨_, _, _, _, hv⟩ .refl ⟨_, _, _, _, hw⟩
  · rw [← Bool.not_eq_true, hself, not_not]
    exact .item (by simp) (.self _)

end SmallLisp
