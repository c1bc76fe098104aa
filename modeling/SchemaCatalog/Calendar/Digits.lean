import SchemaCatalog.Number.Literal
import SchemaCatalog.Text.Basic

/-!
# Numbers in dates and times

A number in a date or a time may have blank characters in front of it and takes up to a
given count of digits; it is written with zeros in front up to a width.
-/

set_option autoImplicit false

namespace SchemaCatalog.Calendar

/-- The digits at the front, at most `limit` of them, as a number; there has to be one. -/
def digits? (limit : Nat) (cs : List Char) : Option (Nat × List Char) :=
  let ds := (cs.take limit).takeWhile Char.isDigit
  if ds.isEmpty then none else some (Number.digitsValue ds, cs.drop ds.length)

/-- A number of at most `limit` digits behind blank characters. -/
def number? (limit : Nat) (cs : List Char) : Option (Nat × List Char) :=
  digits? limit (Text.dropBlank cs)

/-- Exactly `count` digits at the front, as a number. -/
def fixedDigits? (count : Nat) (cs : List Char) : Option (Nat × List Char) :=
  let ds := cs.take count
  if ds.length = count ∧ ds.all Char.isDigit then some (Number.digitsValue ds, cs.drop count)
  else none

/-- The rest behind a character that has to stand at the front. -/
def expect? (c : Char) : List Char → Option (List Char)
  | [] => none
  | d :: cs => if d = c then some cs else none

/-- A number with zeros in front up to a width. -/
def padded (width n : Nat) : List Char :=
  let ds := Nat.toDigits 10 n
  List.replicate (width - ds.length) '0' ++ ds

end SchemaCatalog.Calendar
