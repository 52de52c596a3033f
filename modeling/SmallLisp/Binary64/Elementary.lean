import SmallLisp.Binary64.Fixed
import SmallLisp.Binary64.Word

/-!
# Elementary functions

Exponential, logarithms, circular and hyperbolic functions of binary64 numbers.  What the machine
offers is taken from it.  The logarithm of `1 + x` and the inverses of `sinh` and `cosh` are
computed in fixed point and rounded once, so they are accurate next to their zeros and do not
overflow.
-/

namespace SmallLisp.Binary64

/-- The ratio of a circle's circumference to its diameter. -/
def pi : Binary64 := ofRatio 3141592653589793 1000000000000000

/-- The base of the natural logarithm. -/
def euler : Binary64 := ofRatio 2718281828459045 1000000000000000

/-- The number one. -/
def one : Binary64 := ofInt 1

def exp : Binary64 → Binary64 := lift Float.exp
def log : Binary64 → Binary64 := lift Float.log
def log10 : Binary64 → Binary64 := lift Float.log10
def sin : Binary64 → Binary64 := lift Float.sin
def cos : Binary64 → Binary64 := lift Float.cos
def tan : Binary64 → Binary64 := lift Float.tan
def asin : Binary64 → Binary64 := lift Float.asin
def acos : Binary64 → Binary64 := lift Float.acos
def atan : Binary64 → Binary64 := lift Float.atan
def atan2 : Binary64 → Binary64 → Binary64 := lift₂ Float.atan2
def sinh : Binary64 → Binary64 := lift Float.sinh
def cosh : Binary64 → Binary64 := lift Float.cosh
def tanh : Binary64 → Binary64 := lift Float.tanh
def pow : Binary64 → Binary64 → Binary64 := lift₂ Float.pow

/-- The logarithm of `1 + x`. -/
def log1p : Binary64 → Binary64
  | nan => nan
  | infinity s => if s then nan else infinity false
  | finite s m =>
    let y := 1 + Fixed.ofQuanta (signed s m)
    if y < 0 then nan else if y = 0 then infinity true else y.log.roundSize s

/-- The inverse of `sinh`, the logarithm of `x + √(x² + 1)`. -/
def asinh : Binary64 → Binary64
  | finite s m =>
    let y := Fixed.ofQuanta m.quanta
    (y + (y * y + 1).sqrt).log.roundSize s
  | x => x

/-- The inverse of `cosh`, the logarithm of `x + √(x² - 1)`; it is undefined below one. -/
def acosh : Binary64 → Binary64
  | nan => nan
  | infinity s => if s then nan else infinity false
  | finite s m =>
    let y := Fixed.ofQuanta (signed s m)
    if y < 1 then nan else (y + (y * y - 1).sqrt).log.roundSize false

/-- The inverse of `tanh`, half the logarithm of `(1 + x) / (1 - x) = 1 + 2x / (1 - x)`. -/
def atanh (x : Binary64) : Binary64 :=
  (ofRatio 1 2).mul (((ofInt 2).mul x).div (one.sub x)).log1p

/-- From radians to degrees. -/
def toDegrees (x : Binary64) : Binary64 := x.mul ((ofInt 180).div pi)

/-- From degrees to radians. -/
def toRadians (x : Binary64) : Binary64 := x.mul (pi.div (ofInt 180))

end SmallLisp.Binary64
