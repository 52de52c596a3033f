/-!
# Primitive procedures

The procedures that every session starts with, by name only; what they compute is in
`SmallLisp.Primitive.Apply`.  Those that take one or two numbers to a number form families of their
own.  `Primitive.all` lists them, and none is missing (`Primitive.mem_all`).
-/

namespace SmallLisp

/-- The comparisons. -/
inductive Comparison where
  | greater
  | less
  | atLeast
  | atMost
  | equal
deriving DecidableEq, Repr

/-- The functions of one number. -/
inductive UnaryFunction where
  | ceil | floor | trunc | fabs
  | exp | log | log1p | log10 | sqrt
  | acos | asin | atan | cos | sin | tan
  | degrees | radians
  | acosh | asinh | atanh | cosh | sinh | tanh
  | erf | erfc | gamma | lgamma
deriving DecidableEq, Repr

/-- The functions of two numbers. -/
inductive BinaryFunction where
  | fmod | atan2 | hypot
deriving DecidableEq, Repr

/-- The greatest or the least of some numbers. -/
inductive Extremum where
  | maximum | minimum
deriving DecidableEq, Repr

/-- A primitive procedure. -/
inductive Primitive where
  | add | subtract | multiply | divide | remainder
  | compare (comparison : Comparison)
  | abs | append | car | cdr | length | list | isList
  | extremum (which : Extremum)
  | not | isNumber | round
  | unary (function : UnaryFunction)
  | binary (function : BinaryFunction)
  | copysign | pow | factorial | frexp | ldexp | fsum | isinf | isnan
deriving DecidableEq, Repr

namespace Comparison

def name : Comparison → String
  | greater => ">"
  | less => "<"
  | atLeast => ">="
  | atMost => "<="
  | equal => "="

def all : List Comparison := [greater, less, atLeast, atMost, equal]

theorem mem_all (c : Comparison) : c ∈ all := by cases c <;> decide

end Comparison

namespace UnaryFunction

def name : UnaryFunction → String
  | ceil => "ceil"
  | floor => "floor"
  | trunc => "trunc"
  | fabs => "fabs"
  | exp => "exp"
  | log => "log"
  | log1p => "log1p"
  | log10 => "log10"
  | sqrt => "sqrt"
  | acos => "acos"
  | asin => "asin"
  | atan => "atan"
  | cos => "cos"
  | sin => "sin"
  | tan => "tan"
  | degrees => "degrees"
  | radians => "radians"
  | acosh => "acosh"
  | asinh => "asinh"
  | atanh => "atanh"
  | cosh => "cosh"
  | sinh => "sinh"
  | tanh => "tanh"
  | erf => "erf"
  | erfc => "erfc"
  | gamma => "gamma"
  | lgamma => "lgamma"

def all : List UnaryFunction :=
  [ceil, floor, trunc, fabs, exp, log, log1p, log10, sqrt, acos, asin, atan, cos, sin, tan,
    degrees, radians, acosh, asinh, atanh, cosh, sinh, tanh, erf, erfc, gamma, lgamma]

theorem mem_all (f : UnaryFunction) : f ∈ all := by cases f <;> decide

end UnaryFunction

namespace BinaryFunction

def name : BinaryFunction → String
  | fmod => "fmod"
  | atan2 => "atan2"
  | hypot => "hypot"

def all : List BinaryFunction := [fmod, atan2, hypot]

theorem mem_all (f : BinaryFunction) : f ∈ all := by cases f <;> decide

end BinaryFunction

namespace Extremum

def name : Extremum → String
  | maximum => "max"
  | minimum => "min"

def all : List Extremum := [maximum, minimum]

theorem mem_all (x : Extremum) : x ∈ all := by cases x <;> decide

end Extremum

namespace Primitive

/-- The name that a primitive is bound to at the start and shown by ever after. -/
def name : Primitive → String
  | add => "+"
  | subtract => "-"
  | multiply => "*"
  | divide => "/"
  | remainder => "%"
  | compare c => c.name
  | abs => "abs"
  | append => "append"
  | car => "car"
  | cdr => "cdr"
  | length => "length"
  | list => "list"
  | isList => "list?"
  | extremum x => x.name
  | not => "not"
  | isNumber => "number?"
  | round => "round"
  | unary f => f.name
  | binary f => f.name
  | copysign => "copysign"
  | pow => "pow"
  | factorial => "factorial"
  | frexp => "frexp"
  | ldexp => "ldexp"
  | fsum => "fsum"
  | isinf => "isinf"
  | isnan => "isnan"

/-- All primitives. -/
def all : List Primitive :=
  [add, subtract, multiply, divide, remainder] ++ Comparison.all.map compare ++
    [abs, append, car, cdr, length, list, isList] ++ Extremum.all.map extremum ++
    [not, isNumber, round] ++ UnaryFunction.all.map unary ++ BinaryFunction.all.map binary ++
    [copysign, pow, factorial, frexp, ldexp, fsum, isinf, isnan]

theorem mem_all (p : Primitive) : p ∈ all := by
  cases p with
  | compare c => simp [all, Comparison.mem_all]
  | extremum x => simp [all, Extremum.mem_all]
  | unary f => simp [all, UnaryFunction.mem_all]
  | binary f => simp [all, BinaryFunction.mem_all]
  | _ => simp [all]

end Primitive

end SmallLisp
