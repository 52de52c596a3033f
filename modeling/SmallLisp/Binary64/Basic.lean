import SmallLisp.Binary64.Magnitude

/-!
# Binary64 numbers

The floating-point numbers of the language: a sign with a magnitude, the two infinities, and
one undefined number, `nan`.

Every operation here works on the exact number of quanta and rounds once, with
`Binary64.round`.  Order and equality are those of the number line: `place` puts the infinities
just beyond the largest magnitude and identifies the two zeros, and `nan` has no place.
-/

namespace SmallLisp

/-- A binary64 floating-point number. -/
inductive Binary64 where
  | nan
  | infinity (negative : Bool)
  | finite (negative : Bool) (magnitude : Magnitude)
deriving DecidableEq

namespace Binary64

/-- The number nearest to `num / den` quanta with the given sign, infinite beyond the range. -/
def round (negative : Bool) (num den : Nat) : Binary64 :=
  match Magnitude.round? num den with
  | some m => finite negative m
  | none => infinity negative

/-- A zero of either sign. -/
def zero (negative : Bool) : Binary64 := finite negative .zero

/-- The number nearest to an integer. -/
def ofInt (z : Int) : Binary64 := round (z < 0) (z.natAbs * quantaPerOne) 1

/-- The number nearest to the fraction of two natural numbers. -/
def ofRatio (num den : Nat) : Binary64 := round false (num * quantaPerOne) den

/-- The signed number of quanta of a finite number. -/
def signed (negative : Bool) (m : Magnitude) : Int :=
  if negative then -(m.quanta : Int) else m.quanta

/-! ### Sign -/

/-- Whether the sign is negative; `nan` counts as positive. -/
def isNegative : Binary64 → Bool
  | nan => false
  | infinity s => s
  | finite s _ => s

/-- The same size with the given sign. -/
def withSign (negative : Bool) : Binary64 → Binary64
  | nan => nan
  | infinity _ => infinity negative
  | finite _ m => finite negative m

/-- The number with its sign changed. -/
def neg (x : Binary64) : Binary64 := x.withSign (!x.isNegative)

/-- The number without its sign. -/
def abs (x : Binary64) : Binary64 := x.withSign false

/-- The size of `x` with the sign of `y`. -/
def copySign (x y : Binary64) : Binary64 := x.withSign y.isNegative

/-! ### Kinds -/

def isNan : Binary64 → Bool
  | nan => true
  | _ => false

def isInfinite : Binary64 → Bool
  | infinity _ => true
  | _ => false

/-! ### Order -/

/-- The place on the number line, in quanta. -/
def place : Binary64 → Option Int
  | nan => none
  | infinity s => some (if s then -(quantaLimit : Int) else quantaLimit)
  | finite s m => some (signed s m)

/-- How two numbers compare; `none` if either is `nan`. -/
def compare? (x y : Binary64) : Option Ordering := do
  return compare (← x.place) (← y.place)

/-- Equality on the number line: the zeros are equal, and `nan` equals nothing. -/
def eqv (x y : Binary64) : Bool := compare? x y == some .eq

/-- Strict order on the number line. -/
def lt (x y : Binary64) : Bool := compare? x y == some .lt

/-! ### Arithmetic -/

/-- The nearest number to a signed number of quanta; a zero takes the given sign. -/
def ofQuanta (zeroSign : Bool) (z : Int) : Binary64 :=
  if z = 0 then zero zeroSign else round (z < 0) z.natAbs 1

def add : Binary64 → Binary64 → Binary64
  | nan, _ => nan
  | _, nan => nan
  | infinity s, infinity t => if s = t then infinity s else nan
  | infinity s, finite _ _ => infinity s
  | finite _ _, infinity t => infinity t
  | finite s m, finite t n => ofQuanta (s && t) (signed s m + signed t n)

def sub (x y : Binary64) : Binary64 := x.add y.neg

def mul : Binary64 → Binary64 → Binary64
  | nan, _ => nan
  | _, nan => nan
  | infinity s, infinity t => infinity (s != t)
  | infinity s, finite t n => if n.quanta = 0 then nan else infinity (s != t)
  | finite s m, infinity t => if m.quanta = 0 then nan else infinity (s != t)
  | finite s m, finite t n => round (s != t) (m.quanta * n.quanta) quantaPerOne

def div : Binary64 → Binary64 → Binary64
  | nan, _ => nan
  | _, nan => nan
  | infinity _, infinity _ => nan
  | infinity s, finite t _ => infinity (s != t)
  | finite s _, infinity t => zero (s != t)
  | finite s m, finite t n =>
    if n.quanta = 0 then
      if m.quanta = 0 then nan else infinity (s != t)
    else round (s != t) (m.quanta * quantaPerOne) n.quanta

/-- The remainder of dividing toward zero; it has the sign of the dividend. -/
def mod : Binary64 → Binary64 → Binary64
  | nan, _ => nan
  | _, nan => nan
  | infinity _, _ => nan
  | finite s m, infinity _ => finite s m
  | finite s m, finite _ n => if n.quanta = 0 then nan else round s (m.quanta % n.quanta) 1

/-! ### Whole numbers -/

/-- Rounds to a whole number, given how a number of quanta is taken to a number of ones. -/
def toWhole (wholes : Bool → Nat → Nat) : Binary64 → Binary64
  | finite s m => round s (wholes s m.quanta * quantaPerOne) 1
  | x => x

/-- Toward zero. -/
def trunc : Binary64 → Binary64 :=
  toWhole fun _ k => k / quantaPerOne

/-- The next whole number away from zero, unless `k` quanta are whole. -/
def wholesAbove (k : Nat) : Nat := (k + (quantaPerOne - 1)) / quantaPerOne

/-- Down. -/
def floor : Binary64 → Binary64 :=
  toWhole fun negative k => if negative then wholesAbove k else k / quantaPerOne

/-- Up. -/
def ceil : Binary64 → Binary64 :=
  toWhole fun negative k => if negative then k / quantaPerOne else wholesAbove k

/-- To the nearest, halfway cases away from zero. -/
def roundHalfAway : Binary64 → Binary64 :=
  toWhole fun _ k => (2 * k + quantaPerOne) / (2 * quantaPerOne)

/-- The natural number that a number equals, if it is one. -/
def toNat? : Binary64 → Option Nat
  | finite s m =>
    if m.quanta % quantaPerOne = 0 ∧ (s = true → m.quanta = 0) then
      some (m.quanta / quantaPerOne)
    else none
  | _ => none

/-! ### Powers of two -/

/-- Splits a number into a fraction of size at least a half and below one, and a power of two. -/
def splitExponent : Binary64 → Binary64 × Int
  | finite s m =>
    if m.quanta = 0 then (finite s m, 0)
    else
      let bits := m.quanta.log2 + 1
      (round s (m.quanta * quantaPerOne) (Nat.pow 2 bits), (bits : Int) - 1074)
  | x => (x, 0)

/-- The number times a power of two.  Shifts of more than the width of the format make no
difference to the result, so the shift is cut there. -/
def scale (x : Binary64) (e : Int) : Binary64 :=
  match x with
  | finite s m =>
    round s (m.quanta * Nat.pow 2 (min e.toNat 2098)) (Nat.pow 2 (min (-e).toNat 2100))
  | x => x

/-! ### Square roots -/

/-- The square root of a natural number, rounded down. -/
def natSqrt (n : Nat) : Nat :=
  if n < 2 then n
  else
    let r := 2 * natSqrt (n / 4)
    if (r + 1) * (r + 1) ≤ n then r + 1 else r
termination_by n

/-- The number nearest to the square root of `n`, in quanta.  The root of `4 * n` gives one more
bit, and a last bit tells whether the root is exact, so that no rounding sees a false tie. -/
def ofSqrt (n : Nat) : Binary64 :=
  let r := natSqrt (4 * n)
  round false (2 * r + if r * r = 4 * n then 0 else 1) 4

/-- The square root; a negative number has none, except the negative zero, which is its own. -/
def sqrt : Binary64 → Binary64
  | nan => nan
  | infinity s => if s then nan else infinity s
  | finite s m =>
    if m.quanta = 0 then finite s m
    else if s then nan
    else ofSqrt (m.quanta * quantaPerOne)

/-- The length of the hypotenuse over two sides; infinite if a side is, whatever the other. -/
def hypot : Binary64 → Binary64 → Binary64
  | infinity _, _ => infinity false
  | _, infinity _ => infinity false
  | nan, _ => nan
  | _, nan => nan
  | finite _ m, finite _ n => ofSqrt (m.quanta * m.quanta + n.quanta * n.quanta)

end Binary64

end SmallLisp
