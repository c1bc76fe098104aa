import SchemaCatalog.Catalog.Basic
import SchemaCatalog.Toml.Writer

/-!
# Settings

What can be configured: the form of keys and the directory of definitions, whether the
defects below hidden lists are left out, and the filter of the log. Settings are
exchanged as JSON and kept in TOML files.
-/

set_option autoImplicit false

namespace SchemaCatalog

/-- Settings of the catalog. -/
structure CatalogSettings where
  /-- The pattern that keys have to match. -/
  keyPattern : String := KeyRule.defaultText
  /-- The directory of the definitions. -/
  schemaDir : Option String := none
deriving DecidableEq, Repr, Inhabited

/-- Settings of the validation of forms. -/
structure ValidationSettings where
  suppressHiddenListErrors : Bool := true
deriving DecidableEq, Repr, Inhabited

/-- Settings of the log. -/
structure LoggingSettings where
  filter : String := "info"
deriving DecidableEq, Repr, Inhabited

/-- All settings. -/
structure Settings where
  registry : CatalogSettings := {}
  validation : ValidationSettings := {}
  logging : LoggingSettings := {}
deriving DecidableEq, Repr, Inhabited

open Decode

namespace CatalogSettings

def layout : Layout := ⟨"RegistryConfig", ["key_pattern", "schema_dir"], []⟩

def decode (r : Reading) : Except DecodeError CatalogSettings := do
  let e ← layout.entries r
  e.close <|
    CatalogSettings.mk
    <$> e.field "key_pattern" text (some KeyRule.defaultText)
    <*> e.field "schema_dir" (optional (textAs "path string")) (some none)

def encode (s : CatalogSettings) : Json :=
  .object [("key_pattern", .string s.keyPattern),
    ("schema_dir", (s.schemaDir.map Json.string).getD .null)]

/-- The lines of a TOML section. -/
def lines (s : CatalogSettings) : List String :=
  ["key_pattern = " ++ Toml.stringText s.keyPattern]
    ++ (s.schemaDir.map fun dir => "schema_dir = " ++ Toml.stringText dir).toList

end CatalogSettings

namespace ValidationSettings

def layout : Layout := ⟨"ValidationConfig", ["suppress_hidden_list_errors"], []⟩

def decode (r : Reading) : Except DecodeError ValidationSettings := do
  let e ← layout.entries r
  e.close <|
    ValidationSettings.mk <$> e.field "suppress_hidden_list_errors" bool (some true)

def encode (s : ValidationSettings) : Json :=
  .object [("suppress_hidden_list_errors", .bool s.suppressHiddenListErrors)]

/-- The lines of a TOML section. -/
def lines (s : ValidationSettings) : List String :=
  ["suppress_hidden_list_errors = " ++ (if s.suppressHiddenListErrors then "true" else "false")]

end ValidationSettings

namespace LoggingSettings

def layout : Layout := ⟨"LoggingConfig", ["filter"], []⟩

def decode (r : Reading) : Except DecodeError LoggingSettings := do
  let e ← layout.entries r
  e.close <| LoggingSettings.mk <$> e.field "filter" text (some "info")

def encode (s : LoggingSettings) : Json := .object [("filter", .string s.filter)]

/-- The lines of a TOML section. -/
def lines (s : LoggingSettings) : List String := ["filter = " ++ Toml.stringText s.filter]

end LoggingSettings

namespace Settings

def layout : Layout := ⟨"EngineConfig", ["registry", "validation", "logging"], []⟩

/-- The settings that a reading stands for. -/
def decode (r : Reading) : Except DecodeError Settings := do
  let e ← layout.entries r
  e.close <|
    Settings.mk
    <$> e.field "registry" CatalogSettings.decode (some {})
    <*> e.field "validation" ValidationSettings.decode (some {})
    <*> e.field "logging" LoggingSettings.decode (some {})

def encode (s : Settings) : Json :=
  .object [("registry", s.registry.encode), ("validation", s.validation.encode),
    ("logging", s.logging.encode)]

/-- A TOML section: a header and lines. -/
def sectionText (name : String) (lines : List String) : String :=
  String.join (("[" ++ name ++ "]\n") :: lines.map (· ++ "\n"))

/-- The settings as a TOML document. -/
def toToml (s : Settings) : String :=
  "\n".intercalate [sectionText "registry" s.registry.lines,
    sectionText "validation" s.validation.lines, sectionText "logging" s.logging.lines]

end Settings

end SchemaCatalog
