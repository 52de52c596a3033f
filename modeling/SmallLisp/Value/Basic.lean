import SmallLisp.Binary64.Basic
import SmallLisp.Primitive.Basic

/-!
# Values

Code and data are one type: the reader makes values, and evaluation takes values to values.
Symbols are names and the only texts.  A procedure is a primitive or a closure, which remembers
the frame that it was made in.

Equality of values is `Value.same`: numbers of the two kinds are never equal, floating-point
numbers are compared on the number line, and a closure equals only itself, which its stamp tells.
A primitive equals only itself too.  It is known by its name, of which a session has one; the
primitives of different sessions are not told apart, so values are to be compared within one session.
-/

namespace SmallLisp

/-- A frame of bindings is known by its number. -/
abbrev FrameId := Nat

/-- A value of the language. -/
inductive Value where
  /-- An exact integer of 64 bits. -/
  | int (n : Int64)
  /-- A floating-point number. -/
  | real (x : Binary64)
  | bool (b : Bool)
  | symbol (name : String)
  | list (items : List Value)
  | primitive (p : Primitive)
  /-- A procedure made by evaluation; the stamp tells closures apart. -/
  | closure (stamp : Nat) (params : List String) (body : Value) (scope : FrameId)

/-- Whether an integer has 64 bits. -/
abbrev IsInt64 (z : Int) : Prop := -0x8000000000000000 ≤ z ∧ z < 0x8000000000000000

namespace Value

/-- The integer `z` if it has 64 bits, and otherwise the nearest floating-point number. -/
def ofInt (z : Int) : Value :=
  if IsInt64 z then int (Int64.ofInt z) else real (Binary64.ofInt z)

/-- Whether a value is a number. -/
def isNumber : Value → Bool
  | int _ => true
  | real _ => true
  | _ => false

/-- Whether a value is a list. -/
def isList : Value → Bool
  | list _ => true
  | _ => false

mutual

/-- Equality of values of one session. -/
def same : Value → Value → Bool
  | int a, int b => a == b
  | real x, real y => x.eqv y
  | bool a, bool b => a == b
  | symbol a, symbol b => a == b
  | list xs, list ys => allSame xs ys
  | primitive p, primitive q => p == q
  | closure s _ _ _, closure t _ _ _ => s == t
  | _, _ => false

/-- Equality of lists of values, item by item. -/
def allSame : List Value → List Value → Bool
  | [], [] => true
  | x :: xs, y :: ys => same x y && allSame xs ys
  | _, _ => false

end

end Value

end SmallLisp
