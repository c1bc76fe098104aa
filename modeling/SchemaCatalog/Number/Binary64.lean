/-!
# Double-precision numbers

A double is kept exactly: a finite one is `significand * 2 ^ exponent` with a sign.
`roundRatio` gives the double nearest to a quotient of natural numbers, a half going
to the even significand; whole numbers and decimal texts are read through it. No
arithmetic on doubles is needed, so none is defined.
-/

set_option autoImplicit false

namespace SchemaCatalog

/-- A double-precision number. -/
inductive Binary64 where
  | finite (negative : Bool) (significand : Nat) (exponent : Int)
  | infinite (negative : Bool)
  | nan
deriving DecidableEq, Repr, Inhabited

namespace Binary64

/-- The least exponent of a finite double. -/
def minExponent : Int := -1074

/-- The greatest exponent of a finite double. -/
def maxExponent : Int := 971

/-- One more than the greatest significand. -/
def significandBound : Nat := Nat.pow 2 53

/-- The zero of a sign. -/
def zero (negative : Bool) : Binary64 := .finite negative 0 minExponent

def isFinite : Binary64 → Bool
  | .finite _ _ _ => true
  | _ => false

def isZero : Binary64 → Bool
  | .finite _ 0 _ => true
  | _ => false

/-- Equality of values: the two zeros agree, and a number that is none agrees with
nothing, not even with itself. -/
def sameValue : Binary64 → Binary64 → Bool
  | .finite n s e, .finite n' s' e' => (s == 0 && s' == 0) || (n == n' && s == s' && e == e')
  | .infinite n, .infinite n' => n == n'
  | _, _ => false

/-- The quotient of two natural numbers rounded to a natural number, a half to even. -/
def roundQuotient (num den : Nat) : Nat :=
  let q := num / den
  let r := num % den
  if 2 * r > den || (2 * r == den && q % 2 == 1) then q + 1 else q

/-- The numerator and denominator of `num / den / 2 ^ e`. -/
def scaled (num den : Nat) (e : Int) : Nat × Nat :=
  if e < 0 then (num * Nat.pow 2 e.natAbs, den) else (num, den * Nat.pow 2 e.natAbs)

/-- The exponent at which the rounded significand of `num / den` has 53 bits, or the
least one. -/
def exponentFor (num den : Nat) : Int :=
  let guess : Int := max minExponent ((num.log2 : Int) - den.log2 - 53)
  let (n, d) := scaled num den guess
  if n / d < significandBound then guess else guess + 1

/-- The double nearest to `num / den`; `den` is not zero. -/
def roundRatio (negative : Bool) (num den : Nat) : Binary64 :=
  if num = 0 then zero negative
  else
    let e := exponentFor num den
    let (n, d) := scaled num den e
    let s := roundQuotient n d
    let (s, e) := if s = significandBound then (s / 2, e + 1) else (s, e)
    if e > maxExponent then .infinite negative else .finite negative s e

/-- The double nearest to a whole number. -/
def ofInt (i : Int) : Binary64 := roundRatio (i < 0) i.natAbs 1

/-- The double nearest to `digits * 10 ^ exponent`. Decimal exponents far outside the
range of doubles are decided without computing the power. -/
def ofDecimal (negative : Bool) (digits : Nat) (exponent : Int) : Binary64 :=
  if digits = 0 then zero negative
  else
    let magnitude : Int := exponent + (Nat.toDigits 10 digits).length
    if magnitude > 400 then .infinite negative
    else if magnitude < -400 then zero negative
    else if exponent < 0 then roundRatio negative digits (Nat.pow 10 exponent.natAbs)
    else roundRatio negative (digits * Nat.pow 10 exponent.natAbs) 1

end Binary64

end SchemaCatalog
