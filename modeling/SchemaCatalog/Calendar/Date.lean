import SchemaCatalog.Calendar.Digits

/-!
# Dates

A date of the Gregorian calendar, continued in both directions. A date is read from
year, month and day with hyphens between them, or from the date part of a time stamp
with an offset; it is written with at least four digits for the year, and years that
need more, or come before year zero, have a sign.
-/

set_option autoImplicit false

namespace SchemaCatalog

namespace Calendar

def isLeapYear (year : Int) : Bool :=
  year % 4 == 0 && (year % 100 != 0 || year % 400 == 0)

/-- The days of a month; none outside the twelve months. -/
def daysInMonth (year : Int) (month : Nat) : Nat :=
  if month = 2 then (if isLeapYear year then 29 else 28)
  else if month = 4 ∨ month = 6 ∨ month = 9 ∨ month = 11 then 30
  else if 1 ≤ month ∧ month ≤ 12 then 31
  else 0

/-- Whether a year, a month and a day are a date within the range that is kept. -/
def isDate (year : Int) (month day : Nat) : Bool :=
  -262143 ≤ year && year ≤ 262142 && 1 ≤ day && day ≤ daysInMonth year month

end Calendar

/-- A date. -/
structure Date where
  year : Int
  month : Nat
  day : Nat
  valid : Calendar.isDate year month day = true := by decide
deriving DecidableEq, Repr

namespace Date

open Calendar

/-- The date of a year, a month and a day, if there is one. -/
def ofParts? (year : Int) (month day : Nat) : Option Date :=
  if h : isDate year month day = true then some ⟨year, month, day, h⟩ else none

/-- A year behind blank characters: up to four digits, or a sign and any number of them. -/
def year? (cs : List Char) : Option (Int × List Char) :=
  match Text.dropBlank cs with
  | '-' :: cs => (digits? cs.length cs).map fun p => (-(p.1 : Int), p.2)
  | '+' :: cs => (digits? cs.length cs).map fun p => ((p.1 : Int), p.2)
  | cs => (digits? 4 cs).map fun p => ((p.1 : Int), p.2)

/-- A date written as year, month and day, with nothing behind it. -/
def plain? (cs : List Char) : Option Date := do
  let (year, cs) ← year? cs
  let cs ← expect? '-' cs
  let (month, cs) ← number? 2 cs
  let cs ← expect? '-' cs
  let (day, cs) ← number? 2 cs
  if cs.isEmpty then ofParts? year month day else none

/-- Whether what stands behind the seconds of a time stamp is a fraction, if there is a
point, and an offset of less than a day, with nothing behind it. -/
def isStampEnd (cs : List Char) : Bool :=
  let offset (cs : List Char) : Bool := (do
    let (hours, cs) ← fixedDigits? 2 cs
    let cs ← expect? ':' cs
    let (minutes, cs) ← fixedDigits? 2 cs
    some (hours ≤ 23 && minutes ≤ 59 && cs.isEmpty)).getD false
  let afterFraction (cs : List Char) : Bool :=
    match cs with
    | [] => false
    | c :: cs =>
        if c = 'Z' ∨ c = 'z' then cs.isEmpty
        else if c = '+' ∨ c = '-' ∨ c = '\u2212' then offset cs
        else false
  match cs with
  | '.' :: cs =>
      let (fraction, cs) := Number.spanDigits cs
      !fraction.isEmpty && afterFraction cs
  | cs => afterFraction cs

/-- The date part of a time stamp: every part has its full width. -/
def ofStamp? (cs : List Char) : Option Date := do
  let (year, cs) ← fixedDigits? 4 cs
  let cs ← expect? '-' cs
  let (month, cs) ← fixedDigits? 2 cs
  let cs ← expect? '-' cs
  let (day, cs) ← fixedDigits? 2 cs
  let cs ← match cs with
    | [] => none
    | c :: cs => if c = 'T' ∨ c = 't' ∨ c = ' ' then some cs else none
  let (hour, cs) ← fixedDigits? 2 cs
  let cs ← expect? ':' cs
  let (minute, cs) ← fixedDigits? 2 cs
  let cs ← expect? ':' cs
  let (second, cs) ← fixedDigits? 2 cs
  if hour ≤ 23 ∧ minute ≤ 59 ∧ second ≤ 60 ∧ isStampEnd cs then ofParts? year month day else none

/-- The date that a text stands for. -/
def ofText? (s : String) : Option Date := plain? s.toList <|> ofStamp? s.toList

/-- The year, with a sign outside the four-digit years. -/
def yearText (year : Int) : List Char :=
  if year < 0 then '-' :: padded 4 year.natAbs
  else if year > 9999 then '+' :: padded 4 year.natAbs
  else padded 4 year.natAbs

/-- The text of a date. -/
def toText (d : Date) : String :=
  String.ofList (yearText d.year ++ '-' :: padded 2 d.month ++ '-' :: padded 2 d.day)

end Date

end SchemaCatalog
