import SchemaCatalog.Toml.Moment

/-!
# Values of settings

What a setting can hold before it is known what is wanted of it. In the values of a
TOML document dates and times have become texts.
-/

set_option autoImplicit false

namespace SchemaCatalog

/-- A value in a layer of settings. -/
inductive SettingValue where
  /-- What stands at the places of a list that were never set. -/
  | nothing
  | text (value : String)
  | whole (value : Int)
  | number (value : Binary64)
  | truth (value : Bool)
  | list (items : List SettingValue)
  | table (entries : List (String × SettingValue))
deriving Repr, Inhabited

namespace SettingValue

/-- A moment in quotes as a text. -/
def ofQuoted? : Toml → Option SettingValue
  | .string s => text <$> Toml.Moment.inQuotes.text? s.toList
  | _ => none

mutual

/-- The value that stands for one of a TOML document. A table that begins with the key for
moments has to hold one, and stands for it. -/
def ofToml? : Toml → Option SettingValue
  | .string s | .moment s => some (text s)
  | .integer i => some (whole i)
  | .float x => some (number x)
  | .boolean b => some (truth b)
  | .array items => list <$> ofItems? items
  | .table _ entries => ofTable? entries
  | .tables elements => (list ∘ List.reverse) <$> ofTables? elements

/-- The values of the items of an array. -/
def ofItems? : List Toml → Option (List SettingValue)
  | [] => some []
  | v :: vs => do
      let w ← ofToml? v
      let ws ← ofItems? vs
      some (w :: ws)

/-- The value of a table with some entries. -/
def ofTable? : List (String × Toml) → Option SettingValue
  | [] => some (table [])
  | (key, v) :: rest =>
      if key = Toml.Moment.key then ofQuoted? v
      else do
        let w ← ofToml? v
        let entries ← ofEntries? rest
        some (table ((key, w) :: entries))

/-- The values of some entries. -/
def ofEntries? : List (String × Toml) → Option (List (String × SettingValue))
  | [] => some []
  | (key, v) :: rest => do
      let w ← ofToml? v
      let entries ← ofEntries? rest
      some ((key, w) :: entries)

/-- The values of some tables. -/
def ofTables? : List (List (String × Toml)) → Option (List SettingValue)
  | [] => some []
  | entries :: rest => do
      let w ← ofTable? entries
      let ws ← ofTables? rest
      some (w :: ws)

end

end SettingValue

end SchemaCatalog
