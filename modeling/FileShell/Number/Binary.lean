import FileShell.Text.Basic

/-! # Binary numbers of fifty-three digits

Shares and likenesses are computed in numbers that have fifty-three binary digits: each step rounds
its exact result to the nearest such number, ties to even (`Binary.nearest`). All of it is
arithmetic on natural numbers, and no number here is below zero. The exponent has no bounds, since
nothing that is computed gets near the ends of binary64. -/

namespace FileShell

/-- **A quotient rounded to a natural number**, a half to the even neighbour. -/
def roundHalfEven (n d : Nat) : Nat :=
  let floor := n / d
  if 2 * (n % d) < d then floor
  else if d < 2 * (n % d) then floor + 1
  else if floor % 2 = 0 then floor
  else floor + 1

/-- **A binary number**: a mantissa times a power of two. -/
structure Binary where
  mantissa : Nat
  exponent : Int
deriving DecidableEq, Repr

namespace Binary

/-- The digits of a mantissa. -/
def precision : Nat := 53

/-- The number zero. -/
def zero : Binary := ⟨0, 0⟩

/-- **The binary number nearest to a quotient**, of two that are equally near the one with the even
mantissa. The quotient is scaled to at least two digits more than a mantissa has, and rounded from
there. -/
def nearest (n d : Nat) : Binary :=
  if n = 0 then zero
  else
    let scale : Int := 55 + Nat.log2 d - Nat.log2 n
    let n' := n <<< scale.toNat
    let d' := d <<< (-scale).toNat
    let surplus := Nat.log2 (n' / d') + 1 - precision
    let mantissa := roundHalfEven n' (d' <<< surplus)
    if mantissa = 1 <<< precision then ⟨mantissa / 2, surplus - scale + 1⟩
    else ⟨mantissa, surplus - scale⟩

/-- The numerator of a binary number as a quotient. -/
def numerator (b : Binary) : Nat := b.mantissa <<< b.exponent.toNat

/-- The denominator of a binary number as a quotient, a power of two. -/
def denominator (b : Binary) : Nat := 1 <<< (-b.exponent).toNat

/-- A multiple of a binary number, rounded. -/
def times (b : Binary) (k : Nat) : Binary := nearest (b.numerator * k) b.denominator

/-- A binary number divided by a natural number, rounded. -/
def dividedBy (b : Binary) (k : Nat) : Binary := nearest b.numerator (b.denominator * k)

/-- The sum of two binary numbers, rounded. -/
def plus (a b : Binary) : Binary :=
  nearest (a.numerator * b.denominator + b.numerator * a.denominator)
    (a.denominator * b.denominator)

/-- Whether a binary number is less than another one. -/
def isLess (a b : Binary) : Bool := a.numerator * b.denominator < b.numerator * a.denominator

/-- The sixty-four bits of a binary number: eleven of the exponent, and the mantissa without its
leading digit. -/
def bits (b : Binary) : Nat :=
  if b.mantissa = 0 then 0
  else ((b.exponent + 52 + 1023).toNat <<< 52) + (b.mantissa - (1 <<< 52))

/-- A binary number with two decimals. -/
def text (b : Binary) : Text :=
  let hundredths := roundHalfEven (b.numerator * 100) b.denominator
  Text.ofNat (hundredths / 100) ++ '.' :: Text.padded 2 (hundredths % 100)

end Binary

end FileShell
