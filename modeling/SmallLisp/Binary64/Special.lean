import SmallLisp.Binary64.Elementary

/-!
# The error function and the gamma function

Both come from their classical expansions, in fixed point and rounded once.  The error function is
a series of positive terms.  The logarithm of the gamma function is Stirling's expansion, carried
down to small arguments by the recurrence and to negative ones by reflection; as its errors are
absolute and far below a quantum of one, it is good next to its zeros too.
-/

namespace SmallLisp.Fixed

/-! ### The error function -/

/-- The error function of an `x` from zero up to twenty-eight, from
`√π / 2 * e ^ x² * erf x = x (1 + 2x²/3 (1 + 2x²/5 (1 + …)))`.  The terms grow up to the index `x²`
and fall from there. -/
def erf (x : Fixed) : Fixed :=
  let y := x * x
  let terms := seriesLength + 3 * (y.units / unitsPerOne).toNat
  2 * x * nested (fun k => (2, 2 * k + 3)) y 0 terms / (y.exp * pi.sqrt)

/-! ### The gamma function -/

/-- The Bernoulli numbers with the indices 2, 4, …, 40, as numerator and denominator. -/
def bernoulli : List (Int × Nat) :=
  [(1, 6), (-1, 30), (1, 42), (-1, 30), (5, 66), (-691, 2730), (7, 6), (-3617, 510), (43867, 798),
    (-174611, 330), (854513, 138), (-236364091, 2730), (8553103, 6), (-23749461029, 870),
    (8615841276005, 14322), (-7709321041217, 510), (2577687858367, 6),
    (-26315271553053477373, 1919190), (2929993913841559, 6), (-261082718496449122051, 13530)]

/-- The sum `b₀ / ((n+1)(n+2)) + b₁ / ((n+3)(n+4)) y + …` over the given numbers `b`. -/
def stirlingSum (y : Fixed) (n : Nat) : List (Int × Nat) → Fixed
  | [] => 0
  | (num, den) :: rest =>
    ofFraction num (den * ((n + 1) * (n + 2))) + y * stirlingSum y (n + 2) rest

/-- Stirling's expansion of the logarithm of the gamma function.  From forty on its error is below
`2 ^ -160`. -/
def logGammaLarge (x : Fixed) : Fixed :=
  (x - ofFraction 1 2) * x.log - x + (2 * pi).log.scaleBy 1 2 +
    stirlingSum (1 / (x * x)) 0 bernoulli / x

/-- The product `x * (x + 1) * …` of `n` factors. -/
def risingProduct (x : Fixed) : Nat → Fixed
  | 0 => 1
  | n + 1 => x * risingProduct (x + 1) n

/-- The logarithm of the gamma function of a positive number. -/
def logGamma (x : Fixed) : Fixed :=
  if x = 1 ∨ x = 2 then 0
  else logGammaLarge (x + 40) - (x.risingProduct 40).log

/-- The distance to the nearest whole number. -/
def fromWhole (x : Fixed) : Fixed :=
  let r := x.units % unitsPerOne
  ⟨min r (unitsPerOne - r)⟩

/-- The logarithm of the size of the gamma function at `-x`, for a positive `x` that is not whole:
`Γ x * Γ (-x) = -π / (x sin (π x))`. -/
def logGammaNeg (x : Fixed) : Fixed :=
  pi.log - x.log - x.fromWhole.sinPi.log - x.logGamma

end SmallLisp.Fixed

namespace SmallLisp.Binary64

/-- The magnitudes where the error function is one to the last bit, and its complement is below
the least positive number. -/
def erfSaturates (m : Magnitude) : Bool := 28 * quantaPerOne ≤ m.quanta

/-- The error function below `2 ^ -1015`, where it is `x + (2/√π - 1) x`.  The sum is formed sixteen
times as large, so that its second term keeps sixteenths of a quantum. -/
def erfTiny (x : Binary64) : Binary64 :=
  (((ofInt 16).mul x).add ((ofRatio 2054066673528201381 1000000000000000000).mul x)).div (ofInt 16)

/-- The error function. -/
def erf : Binary64 → Binary64
  | nan => nan
  | infinity s => one.withSign s
  | finite s m =>
    if erfSaturates m then one.withSign s
    else if m.quanta < 0x800000000000000 then erfTiny (finite s m)
    else (Fixed.ofQuanta m.quanta).erf.roundSize s

/-- One minus the error function. -/
def erfc : Binary64 → Binary64
  | nan => nan
  | infinity s => ofInt (if s then 2 else 0)
  | finite s m =>
    if erfSaturates m then ofInt (if s then 2 else 0)
    else
      let y := (Fixed.ofQuanta m.quanta).erf
      (if s then 1 + y else 1 - y).round

/-- Whether a magnitude is a whole number. -/
def isWhole (m : Magnitude) : Bool := m.quanta % quantaPerOne = 0

/-- The logarithm of the size of the gamma function, infinite at its poles. -/
def logGamma : Binary64 → Binary64
  | nan => nan
  | infinity _ => infinity false
  | finite s m =>
    let y := Fixed.ofQuanta m.quanta
    if m.quanta = 0 then infinity false
    else if s then
      if isWhole m then infinity false else y.logGammaNeg.round
    else y.logGamma.round

/-- The gamma function.  It is undefined at its poles, other than the two zeros, and changes its
sign at each of them; out of range above 172, and below -200 it is zero to the last bit. -/
def gamma : Binary64 → Binary64
  | nan => nan
  | infinity s => if s then nan else infinity false
  | finite s m =>
    let y := Fixed.ofQuanta m.quanta
    if m.quanta = 0 then infinity s
    else if s then
      let negative := m.quanta / quantaPerOne % 2 = 0
      if isWhole m then nan
      else if 200 < y then zero negative
      else y.logGammaNeg.roundExp negative
    else if 172 < y then infinity false
    else y.logGamma.roundExp false

end SmallLisp.Binary64
