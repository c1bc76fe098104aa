import SchemaCatalog.Proofs.Toml.Documents
import SchemaCatalog.Settings.Load

/-!
# Settings as TOML documents

Settings are written as three sections with a line for each setting; a directory that is not set
has no line. Reading the document gives these sections back (`ofText_toToml`), whatever texts the
settings hold, so that a file of settings is a layer with just what is set
(`layerOf_toToml`).
-/

set_option autoImplicit false

namespace SchemaCatalog.Settings

open Toml (Line)

/-- The lines of the section for the catalog. -/
def catalogLines (s : CatalogSettings) : List Line :=
  ⟨"key_pattern", Toml.stringText s.keyPattern, .string s.keyPattern⟩ ::
    (s.schemaDir.map fun dir => ⟨"schema_dir", Toml.stringText dir, .string dir⟩).toList

/-- The line of the section for the validation of forms. -/
def validationLine (s : ValidationSettings) : Line :=
  ⟨"suppress_hidden_list_errors", if s.suppressHiddenListErrors then "true" else "false",
    .boolean s.suppressHiddenListErrors⟩

/-- The line of the section for the log. -/
def loggingLine (s : LoggingSettings) : Line :=
  ⟨"filter", Toml.stringText s.filter, .string s.filter⟩

/-- The text of a line, without its end. -/
def lineText (line : Line) : String := line.key ++ " = " ++ line.text

theorem lines_catalog (s : CatalogSettings) : s.lines = (catalogLines s).map lineText := by
  have hpattern : "key_pattern" ++ " = " = "key_pattern = " := by decide
  have hdir : "schema_dir" ++ " = " = "schema_dir = " := by decide
  obtain ⟨pattern, dir⟩ := s
  cases dir with
  | none => simp [CatalogSettings.lines, catalogLines, lineText, hpattern]
  | some dir => simp [CatalogSettings.lines, catalogLines, lineText, hpattern, hdir]

theorem lines_validation (s : ValidationSettings) :
    s.lines = [validationLine s].map lineText := by
  have hflag : "suppress_hidden_list_errors" ++ " = " = "suppress_hidden_list_errors = " := by
    decide
  simp [ValidationSettings.lines, validationLine, lineText, hflag]

theorem lines_logging (s : LoggingSettings) : s.lines = [loggingLine s].map lineText := by
  have hfilter : "filter" ++ " = " = "filter = " := by decide
  simp [LoggingSettings.lines, loggingLine, lineText, hfilter]

theorem toList_sectionText (name : String) (lines : List Line) :
    (sectionText name (lines.map lineText)).toList =
      '[' :: (name.toList ++ ']' :: '\n' :: lines.flatMap Line.chars) := by
  have hchars : ∀ line : Line, (lineText line ++ "\n").toList = line.chars := by
    intro line
    simp [lineText, Line.chars]
  simp [sectionText, String.toList_join, List.flatMap_map, hchars]

/-- The document that settings are written as. -/
def document (s : Settings) : List (String × Toml) :=
  let entries (lines : List Line) := lines.map fun line => (line.key, line.value)
  [("registry", .table .header (entries (catalogLines s.registry))),
    ("validation", .table .header (entries [validationLine s.validation])),
    ("logging", .table .header (entries [loggingLine s.logging]))]

/-- No name of a section or a setting needs quotes. -/
theorem isBare_names : ∀ name ∈ ["registry", "key_pattern", "schema_dir", "validation",
    "suppress_hidden_list_errors", "logging", "filter"], Toml.IsBare name := by
  decide

theorem sound_catalogLines (s : CatalogSettings) : ∀ line ∈ catalogLines s, line.Sound := by
  obtain ⟨pattern, dir⟩ := s
  have hpattern : Line.Sound ⟨"key_pattern", Toml.stringText pattern, .string pattern⟩ :=
    ⟨isBare_names _ (by simp), Toml.writtenAs_stringText pattern⟩
  cases dir with
  | none => simpa [catalogLines] using hpattern
  | some dir =>
      have hdir : Line.Sound ⟨"schema_dir", Toml.stringText dir, .string dir⟩ :=
        ⟨isBare_names _ (by simp), Toml.writtenAs_stringText dir⟩
      simpa [catalogLines] using ⟨hpattern, hdir⟩

theorem nodup_catalogLines (s : CatalogSettings) : ((catalogLines s).map Line.key).Nodup := by
  obtain ⟨pattern, dir⟩ := s
  cases dir with
  | none => exact List.nodup_singleton _
  | some dir => exact show ["key_pattern", "schema_dir"].Nodup by decide

theorem sound_validationLine (s : ValidationSettings) : (validationLine s).Sound := by
  refine ⟨isBare_names "suppress_hidden_list_errors" (by simp), ?_⟩
  obtain ⟨flag⟩ := s
  cases flag with
  | true => exact Toml.writtenAs_true
  | false => exact Toml.writtenAs_false

theorem sound_loggingLine (s : LoggingSettings) : (loggingLine s).Sound :=
  ⟨isBare_names "filter" (by simp), Toml.writtenAs_stringText s.filter⟩

/-- Reading the document that settings are written as gives back all that is set. -/
theorem ofText_toToml (s : Settings) : Toml.ofText s.toToml = .ok s.document := by
  have htext : s.toToml.toList =
      '[' :: ("registry".toList ++ ']' :: '\n' :: ((catalogLines s.registry).flatMap Line.chars ++
        '\n' :: '[' :: ("validation".toList ++ ']' :: '\n' ::
          ([validationLine s.validation].flatMap Line.chars ++
            '\n' :: '[' :: ("logging".toList ++ ']' :: '\n' ::
              ([loggingLine s.logging].flatMap Line.chars ++ [])))))) := by
    have hjoin : ∀ a b c : String, ("\n".intercalate [a, b, c]).toList =
        a.toList ++ '\n' :: (b.toList ++ '\n' :: c.toList) := by
      intro a b c
      simp
    rw [toToml, hjoin, lines_catalog, lines_validation, lines_logging, toList_sectionText,
      toList_sectionText, toList_sectionText]
    simp only [List.cons_append, List.append_assoc, List.append_nil]
  -- each section is read behind those before it, whose names are others
  have hread : Toml.Reads [] [] s.toToml.toList s.document := by
    rw [htext]
    refine Toml.Reads.section (sound_catalogLines s.registry) (nodup_catalogLines s.registry)
      (isBare_names _ (by simp)) (by simp [Keyed.keys]) (Toml.Reads.empty_line ?_)
    refine Toml.Reads.section (List.forall_mem_singleton.2 (sound_validationLine s.validation))
      (List.nodup_singleton _) (isBare_names _ (by simp)) (by simp [Keyed.keys])
      (Toml.Reads.empty_line ?_)
    refine Toml.Reads.section (List.forall_mem_singleton.2 (sound_loggingLine s.logging))
      (List.nodup_singleton _) (isBare_names _ (by simp)) (by simp [Keyed.keys]) ?_
    exact Toml.reads_end _ _
  refine Toml.ofText_of_reads ?_ hread
  rw [htext, List.head?_cons]
  decide

/-- The layer of a file with settings: what is set, and nothing else. -/
def layer (s : Settings) : Layers.Layer :=
  [("registry", .table (("key_pattern", .text s.registry.keyPattern) ::
      (s.registry.schemaDir.map fun dir => ("schema_dir", .text dir)).toList)),
    ("validation",
      .table [("suppress_hidden_list_errors", .truth s.validation.suppressHiddenListErrors)]),
    ("logging", .table [("filter", .text s.logging.filter)])]

theorem layerOf_toToml (s : Settings) (path : String) : layerOf path s.toToml = .ok s.layer := by
  have htable : SettingValue.ofTable? s.document = some (.table s.layer) := by
    obtain ⟨⟨pattern, dir⟩, validation, logging⟩ := s
    cases dir with
    | none => rfl
    | some dir => rfl
  rw [layerOf, ofText_toToml]
  simp only [htable]

end SchemaCatalog.Settings
