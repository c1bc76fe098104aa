import SchemaCatalog.Number.Binary64
import SchemaCatalog.Text.Basic

/-!
# Numbers read from texts

The digits of a number text are ASCII. A double is read from an optional sign and
either decimal digits with an optional point and exponent, or one of the words for
the values that have no digits; a whole number from an optional sign and digits.
-/

set_option autoImplicit false

namespace SchemaCatalog.Number

/-- The value of a run of decimal digits. -/
def digitsValue (ds : List Char) : Nat :=
  ds.foldl (fun n c => 10 * n + (c.toNat - '0'.toNat)) 0

/-- The digits at the front and the rest. -/
def spanDigits (cs : List Char) : List Char × List Char :=
  (cs.takeWhile Char.isDigit, cs.dropWhile Char.isDigit)

/-- The sign at the front, true for a minus, and the rest. -/
def takeSign : List Char → Bool × List Char
  | '-' :: cs => (true, cs)
  | '+' :: cs => (false, cs)
  | cs => (false, cs)

/-- The exponent that makes up the whole of a text, if there is one. -/
def exponent? (cs : List Char) : Option Int :=
  let (negative, digits) := takeSign cs
  if digits.isEmpty || !digits.all Char.isDigit then none
  else some (if negative then -(digitsValue digits : Int) else digitsValue digits)

/-- The digits after a point at the front, and the rest. -/
def takeFraction : List Char → List Char × List Char
  | '.' :: cs => spanDigits cs
  | cs => ([], cs)

/-- A decimal without sign: digits, a point, digits, an exponent; a digit has to stand
somewhere before the exponent. -/
def decimal? (negative : Bool) (cs : List Char) : Option Binary64 :=
  let (whole, rest) := spanDigits cs
  let (fraction, rest) := takeFraction rest
  let value (e : Int) :=
    Binary64.ofDecimal negative (digitsValue (whole ++ fraction)) (e - fraction.length)
  if whole.isEmpty && fraction.isEmpty then none
  else match rest with
    | [] => some (value 0)
    | c :: cs => if c = 'e' ∨ c = 'E' then (exponent? cs).map value else none

/-- The double that a text stands for. -/
def double? (s : String) : Option Binary64 :=
  let (negative, cs) := takeSign s.toList
  let word := Text.lowerAscii (String.ofList cs)
  if word = "inf" ∨ word = "infinity" then some (.infinite negative)
  else if word = "nan" then some .nan
  else decimal? negative cs

/-- The whole number of 64 bits that a text stands for. -/
def int64? (s : String) : Option Int :=
  let (negative, digits) := takeSign s.toList
  if digits.isEmpty || !digits.all Char.isDigit then none
  else
    let i : Int := if negative then -(digitsValue digits : Int) else digitsValue digits
    if -Int.pow 2 63 ≤ i ∧ i < Int.pow 2 63 then some i else none

end SchemaCatalog.Number
