import SchemaCatalog.Number.Shortest

/-!
# Written forms of doubles

Two forms are written: one that switches to an exponent outside a range and always
shows that the number is a double, and one that is positional throughout and shows a
whole number without a point.
-/

set_option autoImplicit false

namespace SchemaCatalog

/-- The decisions of a written form of finite doubles. -/
structure DecimalFormat where
  /-- Positions of the decimal point that are written positionally, counted from the
  first digit; `none` writes every number positionally. -/
  positional : Option (Int × Int)
  /-- What follows a whole number. -/
  wholeSuffix : String
  /-- What stands in front of an exponent that is not negative. -/
  exponentPlus : String
  tie : Tie
deriving Repr

namespace DecimalFormat

/-- From `1e-5` up to below `1e16` the point is written, with at least one digit behind
it; elsewhere an exponent with its sign. -/
def exponential : DecimalFormat := ⟨some (-4, 16), ".0", "+", .toEven⟩

/-- Every number is positional and a whole one has no point. -/
def plain : DecimalFormat := ⟨none, "", "", .up⟩

def zeros (n : Nat) : String := String.ofList (List.replicate n '0')

/-- The digits `ds` with the point after the first `point` of them, filled up with zeros. -/
def writePositional (f : DecimalFormat) (ds : List Char) (point : Int) : String :=
  if point ≤ 0 then "0." ++ zeros point.natAbs ++ String.ofList ds
  else if ds.length ≤ point.natAbs then
    String.ofList ds ++ zeros (point.natAbs - ds.length) ++ f.wholeSuffix
  else String.ofList (ds.take point.natAbs) ++ "." ++ String.ofList (ds.drop point.natAbs)

/-- The digits `ds` with one digit before the point and an exponent. -/
def writeExponent (f : DecimalFormat) (ds : List Char) (point : Int) : String :=
  let fraction := if ds.length ≤ 1 then "" else "." ++ String.ofList (ds.drop 1)
  let exponent := point - 1
  String.ofList (ds.take 1) ++ fraction ++ "e"
    ++ (if exponent < 0 then "-" else f.exponentPlus) ++ toString exponent.natAbs

/-- The written form of a double. -/
def write (f : DecimalFormat) : Binary64 → String
  | .nan => "NaN"
  | .infinite negative => if negative then "-inf" else "inf"
  | .finite negative 0 _ => (if negative then "-0" else "0") ++ f.wholeSuffix
  | .finite negative significand exponent =>
      let d := Binary64.shortest f.tie significand exponent
      let ds := Nat.toDigits 10 d.digits
      let point : Int := ds.length + d.exponent
      let inRange := match f.positional with
        | none => true
        | some (low, high) => low ≤ point && point ≤ high
      (if negative then "-" else "")
        ++ (if inRange then f.writePositional ds point else f.writeExponent ds point)

end DecimalFormat

end SchemaCatalog
