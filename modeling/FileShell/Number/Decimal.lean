import FileShell.Number.Binary

/-! # Decimals and the range of binary64

A number in decimal digits stands for the nearest binary64 number. From one bound on that is
infinity (`firstInfinite`); whether a decimal reaches the bound is decided exactly, and without ever
writing out a large exponent. -/

namespace FileShell

/-- **A number in decimal digits**: a significand times a power of ten. -/
structure Decimal where
  negative : Bool
  significand : Nat
  exponent : Int
deriving DecidableEq, Repr

namespace Decimal

/-- The least power of two that is beyond binary64, by its exponent. -/
def maxExponent : Nat := 1024

/-- **The least number that is rounded to infinity**: half a step of the last digit above the
largest finite number, which is one such step below the first power of two beyond. -/
def firstInfinite : Nat := (1 <<< maxExponent) - (1 <<< (maxExponent - Binary.precision - 1))

/-- The number of decimal digits of `firstInfinite`. -/
def firstInfiniteDigits : Nat := 309

/-- **Whether the size of a decimal**, its sign put aside, **is rounded to infinity.** A significand
with as many zeros behind it as the bound has digits is larger than the bound; a significand with
no more bits than the exponent takes decimal places away is below one. -/
def isBeyond (d : Decimal) : Bool :=
  match d.exponent with
  | .ofNat n =>
    d.significand != 0 &&
      (firstInfiniteDigits ≤ n || firstInfinite ≤ d.significand * Nat.pow 10 n)
  | .negSucc n =>
    n < d.significand.log2 && firstInfinite * Nat.pow 10 (n + 1) ≤ d.significand

/-- The largest finite number is not beyond the range. -/
example : (Decimal.mk false 17976931348623157 292).isBeyond = false := by decide +kernel

/-- Two units of its last digit further, a number is. -/
example : (Decimal.mk false 17976931348623159 292).isBeyond = true := by decide +kernel

/-- Digits behind the point count as much as those before it. -/
example : (Decimal.mk false (Nat.pow 10 400) (-90)).isBeyond = true := by decide +kernel

end Decimal

end FileShell
