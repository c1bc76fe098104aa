import SchemaCatalog.Calendar.Digits

/-!
# Times of day

A time has hours, minutes, seconds and nanoseconds; the sixtieth second is a leap
second and may stand in any minute. Seconds may be missing from a text. The fraction is
written with three, six or nine digits, whichever is the first to be exact, and not at
all when it is zero.
-/

set_option autoImplicit false

namespace SchemaCatalog

namespace Calendar

/-- Whether the parts of a time are in range. -/
def isTime (hour minute second nano : Nat) : Bool :=
  hour ≤ 23 && minute ≤ 59 && second ≤ 60 && nano < Nat.pow 10 9

end Calendar

/-- A time of day. -/
structure Time where
  hour : Nat
  minute : Nat
  second : Nat
  nano : Nat
  valid : Calendar.isTime hour minute second nano = true := by decide
deriving DecidableEq, Repr

namespace Time

open Calendar

/-- The time with some parts, if they are in range. -/
def ofParts? (hour minute second nano : Nat) : Option Time :=
  if h : isTime hour minute second nano = true then some ⟨hour, minute, second, nano, h⟩
  else none

/-- The nanoseconds of a fraction; digits beyond the ninth are dropped. -/
def nanoseconds (fraction : List Char) : Nat :=
  let ds := fraction.take 9
  Number.digitsValue ds * Nat.pow 10 (9 - ds.length)

/-- A fraction that makes up the rest of a text, which may be empty. -/
def fraction? : List Char → Option Nat
  | [] => some 0
  | '.' :: cs => if cs.isEmpty || !cs.all Char.isDigit then none else some (nanoseconds cs)
  | _ => none

/-- The time that a text stands for. -/
def ofText? (s : String) : Option Time := do
  let (hour, cs) ← number? 2 s.toList
  let cs ← expect? ':' cs
  let (minute, cs) ← number? 2 cs
  if cs.isEmpty then ofParts? hour minute 0 0
  else
    let cs ← expect? ':' cs
    let (second, cs) ← number? 2 cs
    let nano ← fraction? cs
    ofParts? hour minute second nano

/-- The digits of a fraction of a second behind a point, if it is not zero. -/
def fractionText (nano : Nat) : List Char :=
  if nano = 0 then []
  else if nano % Nat.pow 10 6 = 0 then '.' :: padded 3 (nano / Nat.pow 10 6)
  else if nano % Nat.pow 10 3 = 0 then '.' :: padded 6 (nano / Nat.pow 10 3)
  else '.' :: padded 9 nano

/-- The text of a time. -/
def toText (t : Time) : String :=
  String.ofList (padded 2 t.hour ++ ':' :: padded 2 t.minute ++ ':' :: padded 2 t.second
    ++ fractionText t.nano)

end Time

end SchemaCatalog
