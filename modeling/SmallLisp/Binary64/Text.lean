import SmallLisp.Binary64.Decimal

/-!
# Binary64 numbers as text

A number is written with the fewest digits that read back.  It is written out when its leading
digit is not too far from the decimal point, and then always with a digit on either side of the
point; otherwise it has an exponent.  `Layout` holds where the one form ends and the other
begins.
-/

namespace SmallLisp

/-- How numbers are laid out. -/
structure Layout where
  /-- The least exponent of the leading digit that is written without an exponent. -/
  lowest : Int
  /-- The greatest one. -/
  highest : Int

/-- Numbers of the language are written out from `0.0001` up to sixteen digits before the
point. -/
def Layout.standard : Layout := ⟨-4, 15⟩

namespace Decimal

/-- The digits of the coefficient, without zeros at the end. -/
def digits (d : Decimal) : List Char :=
  ((Nat.toDigits 10 d.coefficient).reverse.dropWhile (· == '0')).reverse

/-- The exponent of the leading digit. -/
def leading (d : Decimal) : Int :=
  (decimalLength d.coefficient : Int) + d.exponent - 1

/-- Digits with a decimal point after the leading one, and the exponent of that one. -/
def scientific (digits : List Char) (leading : Int) : String :=
  let mantissa := match digits with
    | [] => "0"
    | [c] => String.ofList [c]
    | c :: cs => String.ofList (c :: '.' :: cs)
  mantissa ++ "e" ++ toString leading

/-- Digits with a decimal point among them, before them or after them. -/
def positional (digits : List Char) (leading : Int) : String :=
  if leading < 0 then
    "0." ++ String.ofList (List.replicate (-leading - 1).toNat '0' ++ digits)
  else
    let wholes := leading.toNat + 1
    let before := digits.take wholes ++ List.replicate (wholes - digits.length) '0'
    let after := match digits.drop wholes with
      | [] => ['0']
      | cs => cs
    String.ofList (before ++ '.' :: after)

/-- A positive decimal number as text. -/
def text (layout : Layout) (d : Decimal) : String :=
  if layout.lowest ≤ d.leading ∧ d.leading ≤ layout.highest then positional d.digits d.leading
  else scientific d.digits d.leading

end Decimal

namespace Binary64

/-- The text of a sign. -/
def signText (negative : Bool) : String := if negative then "-" else ""

/-- Text of a number, given how its magnitude is written unless it is zero. -/
def textWith (write : Magnitude → String) : Binary64 → String
  | nan => "NaN"
  | infinity s => signText s ++ "inf"
  | finite s m => signText s ++ if m.quanta = 0 then "0.0" else write m

/-- The text of a number: the fewest digits that read back. -/
def text : Binary64 → String :=
  textWith fun m => m.shortest.text .standard

end Binary64

end SmallLisp
