import SchemaCatalog.Calendar.Date
import SchemaCatalog.Calendar.Time
import SchemaCatalog.Toml.Basic

/-!
# Dates and times in TOML

A date, a time, or a date with a time and perhaps an offset. They are checked and
written in one form, whatever separator and case they were written with. A moment that
stands in quotes under a key of its own is checked less strictly than a bare one.
-/

set_option autoImplicit false

namespace SchemaCatalog.Toml

open Calendar

/-- How strictly moments are checked. -/
structure Moment where
  lastHour : Nat
  /-- Whether an offset may have these hours and minutes. -/
  isOffset : Nat → Nat → Bool

namespace Moment

/-- The rules for a moment without quotes. -/
def bare : Moment := ⟨23, fun hours minutes => hours ≤ 23 && minutes ≤ 59⟩

/-- The rules for a moment in quotes. -/
def inQuotes : Moment := ⟨24, fun hours minutes => 60 * hours + minutes ≤ 24 * 60⟩

/-- The key under which a moment in quotes stands, as the first of a table. -/
def key : String := "$__toml_private_datetime"

/-- The text of a fraction of a second: nine digits without the zeros at the end. -/
def fractionText (nano : Nat) : List Char :=
  if nano = 0 then [] else '.' :: ((padded 9 nano).reverse.dropWhile (· == '0')).reverse

/-- A date at the front and its text. -/
def date? (cs : List Char) : Option (List Char × List Char) := do
  let (year, cs) ← fixedDigits? 4 cs
  let cs ← expect? '-' cs
  let (month, cs) ← fixedDigits? 2 cs
  let cs ← expect? '-' cs
  let (day, cs) ← fixedDigits? 2 cs
  let d ← Date.ofParts? year month day
  some (d.toText.toList, cs)

/-- A time at the front and its text. -/
def time? (rules : Moment) (cs : List Char) : Option (List Char × List Char) := do
  let (hour, cs) ← fixedDigits? 2 cs
  let cs ← expect? ':' cs
  let (minute, cs) ← fixedDigits? 2 cs
  let cs ← expect? ':' cs
  let (second, cs) ← fixedDigits? 2 cs
  let (nano, cs) ← match cs with
    | '.' :: rest =>
        let (ds, rest) := Number.spanDigits rest
        if ds.isEmpty then none else some (Time.nanoseconds ds, rest)
    | cs => some (0, cs)
  if hour ≤ rules.lastHour ∧ minute ≤ 59 ∧ second ≤ 60 then
    some (padded 2 hour ++ ':' :: padded 2 minute ++ ':' :: padded 2 second
      ++ fractionText nano, cs)
  else none

/-- The text of an offset of so many minutes; an offset of none has a plus. -/
def offsetText (negative : Bool) (minutes : Nat) : List Char :=
  let sign := if negative && minutes != 0 then '-' else '+'
  sign :: padded 2 (minutes / 60) ++ ':' :: padded 2 (minutes % 60)

/-- An offset that makes up the rest of a text, which may be empty, and its text. -/
def offset? (rules : Moment) : List Char → Option (List Char)
  | [] => some []
  | c :: cs =>
      if c = 'Z' ∨ c = 'z' then (if cs.isEmpty then some ['Z'] else none)
      else if c = '+' ∨ c = '-' then do
        let (hours, rest) ← fixedDigits? 2 cs
        let rest ← expect? ':' rest
        let (minutes, rest) ← fixedDigits? 2 rest
        if rules.isOffset hours minutes && rest.isEmpty then
          some (offsetText (c == '-') (60 * hours + minutes))
        else none
      else none

/-- The text of a moment: a date, a time, or both with or without an offset. -/
def text? (rules : Moment) (cs : List Char) : Option String :=
  let found : Option (List Char) :=
    match date? cs with
    | some (date, []) => some date
    | some (date, c :: rest) =>
        if c = 'T' ∨ c = 't' ∨ c = ' ' then do
          let (time, rest) ← rules.time? rest
          let offset ← rules.offset? rest
          some (date ++ 'T' :: time ++ offset)
        else none
    | none => match rules.time? cs with
        | some (time, []) => some time
        | _ => none
  found.map String.ofList

end Moment

end SchemaCatalog.Toml
