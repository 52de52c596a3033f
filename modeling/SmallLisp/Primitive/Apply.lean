import SmallLisp.Binary64.Special
import SmallLisp.Error
import SmallLisp.Value.Basic

/-!
# What primitives compute

Primitives check their own arguments; whatever they do not accept is `Error.invalidInput`.

Integers are computed exactly and become floating-point numbers only when they no longer fit, so
`Value.ofInt` ends every operation on them.  As soon as one number of an operation is a
floating-point number, all of it is done in floating point.
-/

namespace SmallLisp

namespace Value

/-- A number as a floating-point number. -/
def toReal : Value → Except Error Binary64
  | int n => .ok (.ofInt n.toInt)
  | real x => .ok x
  | _ => .error .invalidInput

end Value

namespace UnaryFunction

/-- The function itself. -/
def apply : UnaryFunction → Binary64 → Binary64
  | ceil => Binary64.ceil
  | floor => Binary64.floor
  | trunc => Binary64.trunc
  | fabs => Binary64.abs
  | exp => Binary64.exp
  | log => Binary64.log
  | log1p => Binary64.log1p
  | log10 => Binary64.log10
  | sqrt => Binary64.sqrt
  | acos => Binary64.acos
  | asin => Binary64.asin
  | atan => Binary64.atan
  | cos => Binary64.cos
  | sin => Binary64.sin
  | tan => Binary64.tan
  | degrees => Binary64.toDegrees
  | radians => Binary64.toRadians
  | acosh => Binary64.acosh
  | asinh => Binary64.asinh
  | atanh => Binary64.atanh
  | cosh => Binary64.cosh
  | sinh => Binary64.sinh
  | tanh => Binary64.tanh
  | erf => Binary64.erf
  | erfc => Binary64.erfc
  | gamma => Binary64.gamma
  | lgamma => Binary64.logGamma

end UnaryFunction

namespace BinaryFunction

/-- The function itself. -/
def apply : BinaryFunction → Binary64 → Binary64 → Binary64
  | fmod => Binary64.mod
  | atan2 => Binary64.atan2
  | hypot => Binary64.hypot

end BinaryFunction

namespace Comparison

/-- Whether a comparison holds of two things that are in the given order; things without an order
fail every comparison. -/
def holds : Comparison → Option Ordering → Bool
  | greater, o => o == some .gt
  | less, o => o == some .lt
  | atLeast, o => o == some .gt || o == some .eq
  | atMost, o => o == some .lt || o == some .eq
  | equal, o => o == some .eq

end Comparison

namespace Extremum

/-- Whether a number takes the place of another to which it is in the given order. -/
def prefers : Extremum → Option Ordering → Bool
  | maximum, o => o == some .gt
  | minimum, o => o == some .lt

/-- The better of two integers. -/
def ofInts (x : Extremum) (a b : Int64) : Int64 :=
  if x.prefers (some (compare b.toInt a.toInt)) then b else a

/-- The better of two floating-point numbers; `nan` is worse than any other. -/
def ofReals (x : Extremum) (a b : Binary64) : Binary64 :=
  if a.isNan || x.prefers (b.compare? a) then b else a

/-- The best of some items. -/
def best {α : Type} (better : α → α → α) : List α → Option α
  | [] => none
  | a :: as => some (as.foldl better a)

/-- The best of some numbers, given the integers and the floating-point numbers among them.  The
latter win only if they are beyond the best integer, itself taken as a floating-point number. -/
def ofNumbers (x : Extremum) (ints : List Int64) (reals : List Binary64) : Option Value :=
  match best x.ofInts ints, best x.ofReals reals with
  | some n, some r =>
    if x.prefers (r.compare? (.ofInt n.toInt)) then some (.real r) else some (.int n)
  | some n, none => some (.int n)
  | none, some r => some (.real r)
  | none, none => none

end Extremum

namespace Primitive

/-- A result of a primitive. -/
abbrev Result := Except Error Value

/-- Two numbers, exactly if both are integers. -/
def arithmetic (exact : Int → Int → Int) (approximate : Binary64 → Binary64 → Binary64) :
    List Value → Result
  | [.int a, .int b] => .ok (.ofInt (exact a.toInt b.toInt))
  | [x, y] => do return .real (approximate (← x.toReal) (← y.toReal))
  | _ => .error .invalidInput

/-- One number, exactly if it is an integer. -/
def signed (exact : Int → Int) (approximate : Binary64 → Binary64) : List Value → Result
  | [.int n] => .ok (.ofInt (exact n.toInt))
  | [.real x] => .ok (.real (approximate x))
  | _ => .error .invalidInput

/-- The sum of two numbers, or two symbols joined. -/
def addition : List Value → Result
  | [.symbol a, .symbol b] => .ok (.symbol (a ++ b))
  | args => arithmetic (· + ·) Binary64.add args

/-- The difference of two numbers, or a number with its sign changed. -/
def subtraction : List Value → Result
  | [x] => signed (- ·) Binary64.neg [x]
  | args => arithmetic (· - ·) Binary64.sub args

/-- The quotient of two numbers; integers are divided toward zero, and never by zero. -/
def division : List Value → Result
  | [.int a, .int b] =>
    if b = 0 then .error .invalidInput else .ok (.ofInt (a.toInt.tdiv b.toInt))
  | args => arithmetic Int.tdiv Binary64.div args

/-- The remainder of dividing integers toward zero. -/
def modulo : List Value → Result
  | [.int a, .int b] =>
    if b = 0 then .error .invalidInput else .ok (.ofInt (a.toInt.tmod b.toInt))
  | _ => .error .invalidInput

/-- Compares two things of one kind that has an order. -/
def comparing (c : Comparison) : List Value → Result
  | [.int a, .int b] => .ok (.bool (c.holds (some (Ord.compare a.toInt b.toInt))))
  | [.real x, .real y] => .ok (.bool (c.holds (x.compare? y)))
  | [.symbol a, .symbol b] => .ok (.bool (c.holds (some (Ord.compare a b))))
  | _ => .error .invalidInput

/-- The integers and the floating-point numbers among some numbers. -/
def splitNumbers : List Value → Except Error (List Int64 × List Binary64)
  | [] => .ok ([], [])
  | .int n :: rest => do
    let (ints, reals) ← splitNumbers rest
    return (n :: ints, reals)
  | .real x :: rest => do
    let (ints, reals) ← splitNumbers rest
    return (ints, x :: reals)
  | _ :: _ => .error .invalidInput

/-- The greatest or the least of some numbers, at least one. -/
def choosing (x : Extremum) (args : List Value) : Result := do
  let (ints, reals) ← splitNumbers args
  match x.ofNumbers ints reals with
  | some v => return v
  | none => .error .invalidInput

/-- Negation, of the truth values, of their names, and of numbers as being zero. -/
def negation : List Value → Result
  | [.bool b] => .ok (.bool !b)
  | [.int n] => .ok (.bool (n == 0))
  | [.real x] => .ok (.bool (x.eqv (.zero false)))
  | [.symbol name] =>
    if name = "true" then .ok (.bool false)
    else if name = "false" then .ok (.bool true)
    else .error .invalidInput
  | _ => .error .invalidInput

/-- An integer with the sign of another, zero counting as positive. -/
def intCopySign (size sign : Int) : Int :=
  if sign < 0 then -(size.natAbs : Int) else size.natAbs

/-- The power of an integer if it fits in 64 bits.  The exponent has 32 bits at most.  From two
on, no sixty-fourth power fits; below, a power depends only on whether the exponent is zero and
whether it is even. -/
def intPower? (base : Int) (exponent : Nat) : Option Int :=
  if exponent < 0x100000000 then
    let power? :=
      if base.natAbs < 2 then
        some (if exponent = 0 then 1 else if exponent % 2 = 0 then base * base else base)
      else if exponent < 64 then some (base.pow exponent)
      else none
    power?.filter fun z => IsInt64 z
  else none

/-- A number to the power of another, exactly if the result is an integer that fits. -/
def power : List Value → Result
  | [.int base, .int exponent] =>
    match if 0 ≤ exponent.toInt then intPower? base.toInt exponent.toInt.toNat else none with
    | some z => .ok (.int (Int64.ofInt z))
    | none => .ok (.real ((Binary64.ofInt base.toInt).pow (.ofInt exponent.toInt)))
  | [x, y] => do return .real ((← x.toReal).pow (← y.toReal))
  | _ => .error .invalidInput

/-- The factorial, an integer while it fits. -/
def intFactorial : Nat → Value
  | 0 => .int 1
  | n + 1 =>
    match intFactorial n with
    | .int a => .ofInt ((n + 1 : Nat) * a.toInt)
    | .real x => .real ((Binary64.ofInt (n + 1 : Nat)).mul x)
    | v => v

/-- The factorial in floating point. -/
def realFactorial : Nat → Binary64
  | 0 => .one
  | n + 1 => (Binary64.ofInt (n + 1 : Nat)).mul (realFactorial n)

/-- The factorial of a natural number, in the kind of number that it was given in.  Beyond 170 it
is infinite. -/
def factorialOf : List Value → Result
  | [.int n] =>
    if n.toInt < 0 then .error .invalidInput
    else if 170 < n.toInt then .ok (.real (.infinity false))
    else .ok (intFactorial n.toInt.toNat)
  | [.real x] =>
    match x.toNat? with
    | some n => .ok (.real (if 170 < n then .infinity false else realFactorial n))
    | none => .error .invalidInput
  | _ => .error .invalidInput

/-- A fraction and a power of two. -/
def splitExponentOf : List Value → Result
  | [x] => do
    let (fraction, exponent) := (← x.toReal).splitExponent
    return .list [.real fraction, .int (Int64.ofInt exponent)]
  | _ => .error .invalidInput

/-- A number times a power of two, whose exponent is an integer. -/
def scaling : List Value → Result
  | [x, .int e] => do return .real ((← x.toReal).scale e.toInt)
  | _ => .error .invalidInput

/-- The integers of a list that holds nothing else. -/
def allInts? : List Value → Option (List Int)
  | [] => some []
  | .int n :: rest => (allInts? rest).map (n.toInt :: ·)
  | _ :: _ => none

/-- The sum of a list of numbers, exactly if all are integers, and from left to right if not. -/
def summing : List Value → Result
  | [.list items] =>
    match allInts? items with
    | some ints => .ok (.ofInt (ints.foldr (· + ·) 0))
    | none => do
      let reals ← items.mapM Value.toReal
      return .real (reals.foldl Binary64.add (.zero true))
  | _ => .error .invalidInput

/-- A property of floating-point numbers that no integer has. -/
def classifying (test : Binary64 → Bool) : List Value → Result
  | [.int _] => .ok (.bool false)
  | [.real x] => .ok (.bool (test x))
  | _ => .error .invalidInput

/-- Two lists as one. -/
def appending : List Value → Result
  | [.list xs, .list ys] => .ok (.list (xs ++ ys))
  | _ => .error .invalidInput

/-- The first item of a list. -/
def first : List Value → Result
  | [.list (x :: _)] => .ok x
  | _ => .error .invalidInput

/-- A list without its first item. -/
def rest : List Value → Result
  | [.list (_ :: xs)] => .ok (.list xs)
  | _ => .error .invalidInput

/-- The number of items of a list. -/
def counting : List Value → Result
  | [.list xs] => .ok (.int (Int64.ofInt xs.length))
  | _ => .error .invalidInput

/-- A property of any one value. -/
def testing (test : Value → Bool) : List Value → Result
  | [v] => .ok (.bool (test v))
  | _ => .error .invalidInput

/-- One number in floating point. -/
def onReal (f : Binary64 → Binary64) : List Value → Result
  | [x] => do return .real (f (← x.toReal))
  | _ => .error .invalidInput

/-- Two numbers in floating point. -/
def onReals (f : Binary64 → Binary64 → Binary64) : List Value → Result
  | [x, y] => do return .real (f (← x.toReal) (← y.toReal))
  | _ => .error .invalidInput

/-- The result of calling a primitive. -/
def apply : Primitive → List Value → Result
  | add => addition
  | subtract => subtraction
  | multiply => arithmetic (· * ·) Binary64.mul
  | divide => division
  | remainder => modulo
  | compare c => comparing c
  | abs => signed (fun z => (z.natAbs : Int)) Binary64.abs
  | append => appending
  | car => first
  | cdr => rest
  | length => counting
  | list => fun args => .ok (.list args)
  | isList => testing Value.isList
  | extremum x => choosing x
  | not => negation
  | isNumber => testing Value.isNumber
  | round => signed id Binary64.roundHalfAway
  | unary f => onReal f.apply
  | binary f => onReals f.apply
  | copysign => arithmetic intCopySign Binary64.copySign
  | pow => power
  | factorial => factorialOf
  | frexp => splitExponentOf
  | ldexp => scaling
  | fsum => summing
  | isinf => classifying Binary64.isInfinite
  | isnan => classifying Binary64.isNan

end Primitive

end SmallLisp
