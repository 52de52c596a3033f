import SmallLisp.Binary64.Text
import SmallLisp.Value.Basic

/-!
# Text of values

`Value.text` writes a value the way the reader takes it back, as far as it can: numbers, symbols
and lists of them read back as they were, and a closure is written as the expression that makes
it.
-/

namespace SmallLisp

/-- Items in parentheses, one space apart. -/
def parenthesize (items : List String) : String :=
  "(" ++ " ".intercalate items ++ ")"

namespace Value

mutual

/-- The text of a value, numbers that are not exact being written by `real`. -/
def textWith (real : Binary64 → String) : Value → String
  | int n => toString n.toInt
  | .real x => real x
  | bool b => if b then "true" else "false"
  | symbol name => name
  | list items => parenthesize (textsWith real items)
  | primitive p => "#<builtin " ++ p.name ++ ">"
  | closure _ params body _ =>
    parenthesize ["lambda", parenthesize params, textWith real body]

/-- The texts of several values. -/
def textsWith (real : Binary64 → String) : List Value → List String
  | [] => []
  | v :: vs => textWith real v :: textsWith real vs

end

/-- The text of a value. -/
def text (v : Value) : String := v.textWith Binary64.text

theorem textsWith_eq_map (real : Binary64 → String) (vs : List Value) :
    textsWith real vs = vs.map (textWith real) := by
  induction vs with
  | nil => rfl
  | cons v vs ih => rw [textsWith, ih, List.map_cons]

end Value

end SmallLisp
