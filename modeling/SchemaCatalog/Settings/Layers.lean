import SchemaCatalog.Disk.Basic
import SchemaCatalog.Number.Render
import SchemaCatalog.Settings.Basic
import SchemaCatalog.Settings.Path

/-!
# Layers of settings

Settings come from several layers: files, in their order, and the environment on top.
Later layers win key by key; keys are compared in lower case. What the layers together
say is then read as settings, with numbers and truth values taken for texts and the
other way round where the words allow it.
-/

set_option autoImplicit false

namespace SchemaCatalog

/-- Why there are no settings. -/
inductive SettingsError where
  /-- A file that was asked for is not there. -/
  | fileNotFound (path : String)
  /-- A file that was asked for does not have a name of a known format. -/
  | unknownFormat (path : String)
  | unreadableFile (fault : FileFault)
  | malformedFile (path : String) (line : Nat)
  | wrongType (key : String)
  | notATable (key : String)
deriving DecidableEq, Repr

namespace SettingsError

def message : SettingsError → String
  | fileNotFound path => s!"configuration file \"{path}\" not found"
  | unknownFormat path => s!"configuration file \"{path}\" is not of a registered file format"
  | unreadableFile fault => fault.message
  | malformedFile path line => s!"TOML parse error at line {line} in {path}"
  | wrongType key => s!"invalid type for key `{key}`"
  | notATable key => s!"invalid type: expected a table for key `{key}`"

end SettingsError

namespace Layers

/-- A layer: keys, each of which stands for a path, with values. -/
abbrev Layer := List (String × SettingValue)

/-- A layer put over those below it. -/
def putOver (below : SettingValue) (layer : Layer) : SettingValue :=
  layer.foldl (fun t e => e.2.place (PathStep.ofKey e.1) t) below

/-- All layers together, the lowest first. -/
def merged (layers : List Layer) : SettingValue := layers.foldl putOver (.table [])

/-! ## The environment -/

/-- What the names of variables that hold settings start with. -/
def variableMark : String := "casework__"

/-- The parts of a list between the places where two underscores stand, the first time from
the left. -/
def splitUnderscores : List Char → List (List Char)
  | [] => [[]]
  | '_' :: '_' :: cs => [] :: splitUnderscores cs
  | c :: cs =>
      match splitUnderscores cs with
      | [] => [[c]]
      | part :: parts => (c :: part) :: parts

/-- The key that a variable sets, if it holds a setting. -/
def variableKey? (name : String) : Option String :=
  let cs := (PathStep.lowerName name).toList
  let mark := variableMark.toList
  if mark.isPrefixOf cs then
    some (Text.dotted ((splitUnderscores (cs.drop mark.length)).map String.ofList))
  else none

/-- The value that the text of a variable stands for: a truth value, a whole number, a
number, or else the text. -/
def variableValue (s : String) : SettingValue :=
  let word := Text.lowerAscii s
  if word = "true" then .truth true
  else if word = "false" then .truth false
  else match Number.int64? s with
    | some i => .whole i
    | none => match Number.double? s with
        | some x => .number x
        | none => .text s

/-- The layer of the environment. -/
def environment (entries : List (String × String)) : Layer :=
  Keyed.ofList (entries.filterMap fun v =>
    (variableKey? v.1).map fun key => (key, variableValue v.2))

/-! ## Reading the merged layers -/

/-- A text; numbers and truth values are written out. -/
def text (key : String) : SettingValue → Except SettingsError String
  | .text s => .ok s
  | .truth b => .ok (if b then "true" else "false")
  | .whole i => .ok (toString i)
  | .number x => .ok (DecimalFormat.plain.write x)
  | _ => .error (.wrongType key)

/-- A text, or none where nothing was set. -/
def optionalText (key : String) : SettingValue → Except SettingsError (Option String)
  | .nothing => .ok none
  | v => some <$> text key v

/-- A truth value; a number is true unless it is zero, and some words stand for either. -/
def bool (key : String) : SettingValue → Except SettingsError Bool
  | .truth b => .ok b
  | .whole i => .ok (i != 0)
  | .number x => .ok (!x.isZero)
  | .text s =>
      let word := Text.lowerAscii s
      if word ∈ ["1", "true", "on", "yes"] then .ok true
      else if word ∈ ["0", "false", "off", "no"] then .ok false
      else .error (.wrongType key)
  | _ => .error (.wrongType key)

/-- The entries of a section: its table, or the items of a list for its fields in their
order. -/
def sectionOf (all : SettingValue) (name : String) (fields : List String) :
    Except SettingsError Layer :=
  match Keyed.get? all.entries name with
  | none => .ok []
  | some (.table entries) => .ok entries
  | some (.list items) => .ok (fields.zip items)
  | some _ => .error (.notATable name)

/-- A field of a section, with a default. -/
def field {α : Type} (entries : Layer) (name : String)
    (read : String → SettingValue → Except SettingsError α) (default : α) :
    Except SettingsError α :=
  match Keyed.get? entries name with
  | none => .ok default
  | some v => read name v

/-- The settings that merged layers stand for. -/
def settings (all : SettingValue) : Except SettingsError Settings := do
  let registry ← sectionOf all "registry" CatalogSettings.layout.fields
  let keyPattern ← field registry "key_pattern" text KeyRule.defaultText
  let schemaDir ← field registry "schema_dir" optionalText none
  let validation ← sectionOf all "validation" ValidationSettings.layout.fields
  let suppress ← field validation "suppress_hidden_list_errors" bool true
  let logging ← sectionOf all "logging" LoggingSettings.layout.fields
  let filter ← field logging "filter" text "info"
  pure ⟨⟨keyPattern, schemaDir⟩, ⟨suppress⟩, ⟨filter⟩⟩

end Layers

end SchemaCatalog
