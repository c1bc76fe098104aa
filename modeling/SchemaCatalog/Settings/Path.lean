import SchemaCatalog.Keyed
import SchemaCatalog.Number.Literal
import SchemaCatalog.Settings.Value

/-!
# Paths of settings

A key at the top of a layer is a path: a name, followed by names behind dots and by
places of lists in brackets. A key that is not of this form is a name as it stands.
`SettingValue.place` puts a value at the end of a path; what is on the way and of the
wrong shape gives way, and tables are merged into tables.
-/

set_option autoImplicit false

namespace SchemaCatalog

/-- A step of a path. A place below zero counts from the end of the list. -/
inductive PathStep where
  | entry (name : String)
  | item (place : Int)
deriving DecidableEq, Repr

namespace PathStep

/-- A name in lower case. The sign for kelvin is the only other character whose lower case
is an ASCII letter. -/
def lowerName (name : String) : String :=
  String.ofList (name.toList.map fun c => if c = '\u212a' then 'k' else c.toLower)

def isNameChar (c : Char) : Bool := c.isAlphanum || c == '_' || c == '-' || c == ' '

/-- Whether a character may stand around the place of a list. -/
def isSpace (c : Char) : Bool := c == ' ' || c == '\t' || c == '\x0d' || c == '\n'

/-- A name at the front. -/
def name? (cs : List Char) : Option (String × List Char) :=
  let name := cs.takeWhile isNameChar
  if name.isEmpty then none else some (String.ofList name, cs.drop name.length)

/-- A whole number of 64 bits. -/
def place? (negative : Bool) (digits : List Char) : Option Int :=
  let n : Int := Number.digitsValue digits
  let i := if negative then -n else n
  if !digits.isEmpty && -Int.pow 2 63 ≤ i && i < Int.pow 2 63 then some i else none

/-- The place of a list, behind its opening bracket. -/
def item? (cs : List Char) : Option (Int × List Char) :=
  let (negative, cs) := match cs.dropWhile isSpace with
    | '-' :: cs => (true, cs)
    | cs => (false, cs)
  let (digits, rest) := Number.spanDigits cs
  match place? negative digits, rest.dropWhile isSpace with
  | some i, ']' :: rest => some (i, rest)
  | _, _ => none

/-- The steps of a path behind its first name; the first argument bounds the steps. -/
def steps? : Nat → List Char → Option (List PathStep)
  | _, [] => some []
  | 0, _ => none
  | fuel + 1, '.' :: cs => do
      let (name, rest) ← name? cs
      let steps ← steps? fuel rest
      some (.entry name :: steps)
  | fuel + 1, '[' :: cs => do
      let (i, rest) ← item? cs
      let steps ← steps? fuel rest
      some (.item i :: steps)
  | _, _ => none

/-- The path that a key stands for. -/
def ofKey (key : String) : List PathStep :=
  match name? key.toList with
  | none => [.entry key]
  | some (name, rest) => match steps? rest.length rest with
      | some steps => .entry name :: steps
      | none => [.entry key]

end PathStep

namespace SettingValue

/-- The entries of a table, and none for anything else. -/
def entries : SettingValue → List (String × SettingValue)
  | table es => es
  | _ => []

/-- The items of a list, and none for anything else. -/
def items : SettingValue → List SettingValue
  | list vs => vs
  | _ => []

/-- The value of a name in a table. -/
def get (v : SettingValue) (name : String) : SettingValue :=
  (Keyed.get? v.entries name).getD nothing

mutual

/-- A value over an old one: a table is merged into the old table, if there is one, and
everything else takes the place of the old value. -/
def mergeOver (old : SettingValue) : SettingValue → SettingValue
  | table [] => match old with
      | nothing => table []
      | old => old
  | table (e :: rest) => overAll (overEntry old e) rest
  | v => v

/-- The table of an old value with one entry over it. -/
def overEntry (old : SettingValue) : String × SettingValue → SettingValue
  | (name, v) =>
      let name := PathStep.lowerName name
      table (Keyed.insert old.entries name (mergeOver (old.get name) v))

/-- The table of an old value with some entries over it. -/
def overAll (old : SettingValue) : List (String × SettingValue) → SettingValue
  | [] => old
  | e :: rest => overAll (overEntry old e) rest

end

/-- The place in a list with so many items that a step leads to. -/
def index (size : Nat) (place : Int) : Nat :=
  if place < 0 then (place + size).toNat else place.toNat

/-- A list that is long enough to have a place. -/
def padded (vs : List SettingValue) (i : Nat) : List SettingValue :=
  vs ++ List.replicate (i + 1 - vs.length) nothing

/-- The old value with another put at the end of a path. -/
def place (v : SettingValue) : List PathStep → SettingValue → SettingValue
  | [], old => old.mergeOver v
  | .entry name :: rest, old =>
      let name := PathStep.lowerName name
      table (Keyed.insert old.entries name (place v rest (old.get name)))
  | [.item i], old =>
      let i := index old.items.length i
      list ((padded old.items i).set i v)
  | .item i :: rest, old =>
      let i := index old.items.length i
      let items := padded old.items i
      list (items.set i (place v rest (items.getD i nothing)))

end SettingValue

end SchemaCatalog
