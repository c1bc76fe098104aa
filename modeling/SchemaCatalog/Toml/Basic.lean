import SchemaCatalog.Keyed
import SchemaCatalog.Number.Binary64

/-!
# TOML tables

The values of a TOML document. A table keeps its entries in the order in which they
came, and it remembers how it came about, because that decides what may still be added
to it: a table with a header of its own is complete after its lines, one that only
stands on the way to another may yet get a header, and one that dotted keys made can
only grow by further dotted keys.
-/

set_option autoImplicit false

namespace SchemaCatalog

/-- How a table came about. -/
inductive TableOrigin where
  | header
  | onTheWay
  | dotted
  | inlined
deriving DecidableEq, Repr, Inhabited

/-- A value of a TOML document; dates and times are kept as their texts. -/
inductive Toml where
  | string (value : String)
  | integer (value : Int)
  | float (value : Binary64)
  | boolean (value : Bool)
  | moment (text : String)
  | array (items : List Toml)
  | table (origin : TableOrigin) (entries : List (String × Toml))
  /-- An array that is written as tables with double brackets, the last one first. -/
  | tables (elements : List (List (String × Toml)))
deriving Repr, Inhabited

namespace Toml

/-- The entries with one replaced in its place, or with a new one behind them. -/
def setEntry (entries : List (String × Toml)) (key : String) (v : Toml) :
    List (String × Toml) :=
  match entries with
  | [] => [(key, v)]
  | (k, old) :: rest => if k = key then (k, v) :: rest else (k, old) :: setEntry rest key v

/-- The entries with one taken out of its place and put behind the others. -/
def moveToEnd (entries : List (String × Toml)) (key : String) (v : Toml) :
    List (String × Toml) :=
  (entries.filter fun e => e.1 != key) ++ [(key, v)]

/-- What adding to a document does, or nothing if the document does not allow it. -/
abbrev Change := TableOrigin → List (String × Toml) → Option (List (String × Toml))

/-- A change made to the table at the end of a path. Tables that are missing on the way
are made; keys of a line do not reach into a table with a header or between braces. -/
def within (dotted : Bool) (change : Change) : List String → Change
  | [], origin, entries => change origin entries
  | key :: rest, _, entries =>
      match Keyed.get? entries key with
      | none =>
          let origin := if dotted then .dotted else .onTheWay
          (within dotted change rest origin []).map fun inner =>
            setEntry entries key (.table origin inner)
      | some (.table origin old) =>
          if (dotted && origin == .header) || origin == .inlined then none
          else (within dotted change rest origin old).map fun inner =>
            setEntry entries key (.table origin inner)
      | some (.tables (last :: before)) =>
          (within dotted change rest .header last).map fun inner =>
            setEntry entries key (.tables (inner :: before))
      | some _ => none

/-- A key with its value added to a table; `dotted` tells whether the key is the last of
several, and then only a table that dotted keys made will do. -/
def addValue (dotted : Bool) (key : String) (v : Toml) : Change := fun origin entries =>
  if dotted != (origin == .dotted) || Keyed.hasKey entries key then none
  else some (setEntry entries key v)

/-- A line with a key of one or more parts. -/
def addLine (path : List String) (v : Toml) : Change := fun origin entries =>
  match path.reverse with
  | [] => none
  | key :: rest => within true (addValue (!rest.isEmpty) key v) rest.reverse origin entries

/-- A header of a table, which only a table on the way to another may have already. -/
def addHeader (key : String) : Change := fun _ entries =>
  match Keyed.get? entries key with
  | none => some (setEntry entries key (.table .header []))
  | some (.table .onTheWay old) => some (moveToEnd entries key (.table .header old))
  | some _ => none

/-- A header of one more table of an array. -/
def addElement (key : String) : Change := fun _ entries =>
  match Keyed.get? entries key with
  | none => some (setEntry entries key (.tables [[]]))
  | some (.tables elements) => some (setEntry entries key (.tables ([] :: elements)))
  | some _ => none

end Toml

end SchemaCatalog
