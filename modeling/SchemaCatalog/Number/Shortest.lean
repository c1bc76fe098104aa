import SchemaCatalog.Number.Binary64

/-!
# Shortest decimal digits

The decimal digits of a double are the fewest that still read back as it, and of
those the nearest. For each number of digits only the two neighbours of the value on
that decimal grid are tried, in exact arithmetic: if any point of the grid reads back
as the value, one of its neighbours does.
-/

set_option autoImplicit false

namespace SchemaCatalog

/-- Decimal digits: the value is `digits * 10 ^ exponent`. -/
structure DecimalDigits where
  digits : Nat
  exponent : Int
deriving DecidableEq, Repr

/-- What to do when two decimals with equally many digits are equally near. -/
inductive Tie where
  | toEven
  | up
deriving DecidableEq, Repr

namespace Binary64

/-- The reals that round to a positive double, in units of a quarter of its last bit:
the lower and the upper end, and whether the ends belong to them. Below a power of
two the doubles are twice as dense. -/
def roundingEnds (significand : Nat) (exponent : Int) : Nat × Nat × Bool :=
  let lower := if significand = significandBound / 2 ∧ exponent > minExponent then 1 else 2
  (4 * significand - lower, 4 * significand + 2, significand % 2 == 0)

/-- The two sides of a comparison of `a * 2 ^ (e - 2)` with `b * 10 ^ k`. -/
def comparable (a : Nat) (e : Int) (b : Nat) (k : Int) : Nat × Nat :=
  let (a, b) := if e - 2 < 0 then (a, b * Nat.pow 2 (e - 2).natAbs)
    else (a * Nat.pow 2 (e - 2).natAbs, b)
  if k < 0 then (a * Nat.pow 10 k.natAbs, b) else (a, b * Nat.pow 10 k.natAbs)

/-- Whether the decimal `b * 10 ^ k` rounds to the double. -/
def readsBack (significand : Nat) (exponent : Int) (b : Nat) (k : Int) : Bool :=
  let (low, high, closed) := roundingEnds significand exponent
  let (l, b₁) := comparable low exponent b k
  let (h, b₂) := comparable high exponent b k
  if closed then l ≤ b₁ && b₂ ≤ h else l < b₁ && b₂ < h

/-- The nearer of two neighbouring decimals `b` and `b + 1` at exponent `k`. -/
def nearer (tie : Tie) (significand : Nat) (exponent : Int) (b : Nat) (k : Int) : Nat :=
  let (twice, middle) := comparable (8 * significand) exponent (2 * b + 1) k
  if twice < middle then b
  else if middle < twice then b + 1
  else match tie with
    | .toEven => if b % 2 = 0 then b else b + 1
    | .up => b + 1

/-- The greatest decimal at exponent `k` that is at most the double. -/
def floorAt (significand : Nat) (exponent : Int) (k : Int) : Nat :=
  let (num, den) := comparable (4 * significand) exponent 1 k
  num / den

/-- The decimal at exponent `k` that reads back as the double, the nearer one if both
neighbours do. -/
def decimalAt (tie : Tie) (significand : Nat) (exponent : Int) (k : Int) : Option Nat :=
  let b := floorAt significand exponent k
  match readsBack significand exponent b k, readsBack significand exponent (b + 1) k with
  | true, true => some (nearer tie significand exponent b k)
  | true, false => some b
  | false, true => some (b + 1)
  | false, false => none

/-- The first hit at the exponents from `k` downwards. -/
def searchDown (tie : Tie) (significand : Nat) (exponent : Int) : Nat → Int → DecimalDigits
  | 0, k => ⟨floorAt significand exponent k, k⟩
  | n + 1, k =>
      match decimalAt tie significand exponent k with
      | some b => ⟨b, k⟩
      | none => searchDown tie significand exponent n (k - 1)

/-- The decimal exponent of the leading digit of a positive double. -/
def leadingExponent (significand : Nat) (exponent : Int) : Int :=
  if exponent < 0 then
    let whole := significand * Nat.pow 10 400 / Nat.pow 2 exponent.natAbs
    ((Nat.toDigits 10 whole).length : Int) - 401
  else ((Nat.toDigits 10 (significand * Nat.pow 2 exponent.natAbs)).length : Int) - 1

/-- The trailing zeros of the digits moved into the exponent. -/
def stripZeros : Nat → DecimalDigits → DecimalDigits
  | 0, d => d
  | n + 1, d =>
      if d.digits % 10 = 0 && d.digits != 0 then stripZeros n ⟨d.digits / 10, d.exponent + 1⟩
      else d

/-- The shortest decimal digits of a positive double; seventeen always suffice. -/
def shortest (tie : Tie) (significand : Nat) (exponent : Int) : DecimalDigits :=
  stripZeros 17 (searchDown tie significand exponent 17 (leadingExponent significand exponent))

end Binary64

end SchemaCatalog
