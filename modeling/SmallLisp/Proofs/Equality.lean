import SmallLisp.Value.Basic

/-!
# Equality of values

A value equals itself unless it holds `nan`, alone or as an item of a list at any depth
(`Value.same_self`).  The body of a closure is code and has no part in its equality.
-/

namespace SmallLisp

/-- A number equals itself unless it is `nan`. -/
theorem Binary64.eqv_self (x : Binary64) : x.eqv x = !x.isNan := by
  have hplace : x.place.isNone = x.isNan := by cases x <;> rfl
  unfold eqv compare?
  rw [← hplace]
  cases x.place with
  | none => rfl
  | some z => simp

namespace Value

mutual

/-- Whether a value is `nan` or a list that holds it. -/
def holdsNan : Value → Bool
  | real x => x.isNan
  | list items => anyHoldsNan items
  | _ => false

/-- Whether one of several values holds `nan`. -/
def anyHoldsNan : List Value → Bool
  | [] => false
  | v :: vs => holdsNan v || anyHoldsNan vs

end

mutual

/-- A value equals itself unless it holds `nan`. -/
theorem same_self (v : Value) : v.same v = !v.holdsNan := by
  cases v with
  | int n => simp [same, holdsNan]
  | real x => rw [same, holdsNan, Binary64.eqv_self]
  | bool b => simp [same, holdsNan]
  | symbol name => simp [same, holdsNan]
  | list items => rw [same, holdsNan, allSame_self items]
  | primitive p => simp [same, holdsNan]
  | closure stamp params body scope => simp [same, holdsNan]

theorem allSame_self (vs : List Value) : allSame vs vs = !anyHoldsNan vs := by
  cases vs with
  | nil => rfl
  | cons v vs => rw [allSame, anyHoldsNan, same_self v, allSame_self vs, Bool.not_or]

end

end Value

end SmallLisp
