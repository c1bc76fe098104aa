import SchemaCatalog.Linker.Codec
import SchemaCatalog.Proofs.Form.RoundTrip
import SchemaCatalog.Requirement.Codec
import SchemaCatalog.Settings.Basic

/-!
# Records that are exchanged

Linkers and their faults, requirements and settings are written and decoded like forms: each
record is restored field by field. All but linkers are restored whatever they hold; the mappings
of a linker have to be in the order of their keys, and are so once they are decoded.
-/

set_option autoImplicit false

namespace SchemaCatalog

open Decode

/-! ## Linkers -/

namespace RecordLinker

def table (l : RecordLinker) : List (String × Option Json) :=
  [("recordDefinitionKey", some (.string l.recordDefinitionKey)),
    ("recordSchemaKey", some (.string l.recordSchemaKey)),
    ("fieldMappings", some (.object (l.fieldMappings.map fun m => (m.1, .string m.2))))]

theorem keys_table (l : RecordLinker) : Keyed.keys l.table = layout.fields := rfl

theorem restored {l : RecordLinker} (hsorted : Keyed.Sorted l.fieldMappings) :
    Restored decode encode l := by
  have hwrite : encode l = .object (present l.table) := rfl
  refine restored_of_table hwrite (by rw [keys_table]; decide) fun o fields h => ?_
  have hdirect : layout.Direct (Keyed.keys l.table) := .of_aliases rfl
  let met := layout.ofFields (Reading.ofFields fields)
  have hdefinition : met.field "recordDefinitionKey" text none =
      (Except.ok l.recordDefinitionKey : Attempt String) :=
    h.field_restored hdirect rfl (restored_text l.recordDefinitionKey)
  have hschema : met.field "recordSchemaKey" text none =
      (Except.ok l.recordSchemaKey : Attempt String) :=
    h.field_restored hdirect rfl (restored_text l.recordSchemaKey)
  have hmappings : met.field "fieldMappings" (mapOf text) (some []) =
      (Except.ok l.fieldMappings : Attempt (List (String × String))) :=
    h.field_restored hdirect rfl (restored_mapOf_text hsorted)
  refine Layout.close_ofFields.2 ?_
  rw [hdefinition, hschema, hmappings]
  rfl

/-- The mappings of a linker are decoded in the order of their keys. -/
theorem sorted_of_decode {r : Reading} {l : RecordLinker} (h : decode r = .ok l) :
    Keyed.Sorted l.fieldMappings := by
  obtain ⟨e, -, hclose⟩ := bind_eq_ok_iff.1 h
  obtain ⟨hattempt, -, -⟩ := Entries.close_eq_ok_iff.1 hclose
  obtain ⟨_, mappings, htwo, hmappings, rfl⟩ := Attempt.seq_eq_ok_iff.1 hattempt
  obtain ⟨_, schema, hone, -, rfl⟩ := Attempt.seq_eq_ok_iff.1 htwo
  obtain ⟨definition, -, rfl⟩ := Attempt.map_eq_ok_iff.1 hone
  refine Entries.of_field_eq_ok hmappings ?_ fun _ _ => sorted_of_mapOf
  rintro _ ⟨⟩
  exact Keyed.sorted_nil

end RecordLinker

namespace LinkerErrors

def table (l : LinkerErrors) : List (String × Option Json) :=
  [("recordDefinitionKey", some (.string l.recordDefinitionKey)),
    ("fieldValueErrors", some (.array (l.fieldValueErrors.map ValidationError.encode))),
    ("fieldKeyErrors", some (.array (l.fieldKeyErrors.map ValidationError.encode)))]

theorem keys_table (l : LinkerErrors) : Keyed.keys l.table = layout.fields := rfl

theorem restored (l : LinkerErrors) : Restored decode encode l := by
  have hwrite : encode l = .object (present l.table) := rfl
  refine restored_of_table hwrite (by rw [keys_table]; decide) fun o fields h => ?_
  have hdirect : layout.Direct (Keyed.keys l.table) := .of_aliases rfl
  let met := layout.ofFields (Reading.ofFields fields)
  have hdefinition : met.field "recordDefinitionKey" text none =
      (Except.ok l.recordDefinitionKey : Attempt String) :=
    h.field_restored hdirect rfl (restored_text l.recordDefinitionKey)
  have hvalues : met.field "fieldValueErrors" (list ValidationError.decode) none =
      (Except.ok l.fieldValueErrors : Attempt (List ValidationError)) :=
    h.field_restored hdirect rfl (restored_list fun e _ => e.restored)
  have hkeys : met.field "fieldKeyErrors" (list ValidationError.decode) none =
      (Except.ok l.fieldKeyErrors : Attempt (List ValidationError)) :=
    h.field_restored hdirect rfl (restored_list fun e _ => e.restored)
  refine Layout.close_ofFields.2 ?_
  rw [hdefinition, hvalues, hkeys]
  rfl

end LinkerErrors

/-! ## Requirements -/

namespace DataRequirement

/-- The fields of a requirement; user types are written only when there are some. -/
def table (r : DataRequirement) : List (String × Option Json) :=
  [("path", some (.string r.path)), ("type", some (.string r.type)),
    ("userTypes", if r.userTypes.isEmpty then none else some (.array (r.userTypes.map .string)))]

theorem keys_table (r : DataRequirement) : Keyed.keys r.table = layout.fields := rfl

theorem encode_eq (r : DataRequirement) : encode r = .object (present r.table) := by
  obtain ⟨path, type, userTypes⟩ := r
  cases userTypes <;> rfl

theorem restored (r : DataRequirement) : Restored decode encode r := by
  refine restored_of_table r.encode_eq (by rw [keys_table]; decide) fun o fields h => ?_
  have hdirect : layout.Direct (Keyed.keys r.table) := .of_aliases rfl
  let met := layout.ofFields (Reading.ofFields fields)
  have hpath : met.field "path" text none = (Except.ok r.path : Attempt String) :=
    h.field_restored hdirect rfl (restored_text r.path)
  have htype : met.field "type" text none = (Except.ok r.type : Attempt String) :=
    h.field_restored hdirect rfl (restored_text r.type)
  have huserTypes : met.field "userTypes" (list text) (some []) =
      (Except.ok r.userTypes : Attempt (List String)) := by
    refine h.field_items hdirect ?_ fun _ => restored_list fun s _ => restored_text s
    rfl
  refine Layout.close_ofFields.2 ?_
  rw [hpath, htype, huserTypes]
  rfl

end DataRequirement

namespace DataRequirementSet

theorem restored (s : DataRequirementSet) : Restored decode encode s :=
  restored_single rfl (fun _ => rfl) rfl (restored_list fun r _ => r.restored)

end DataRequirementSet

/-! ## Settings -/

namespace CatalogSettings

def table (s : CatalogSettings) : List (String × Option Json) :=
  [("key_pattern", some (.string s.keyPattern)),
    ("schema_dir", some ((s.schemaDir.map .string).getD .null))]

theorem keys_table (s : CatalogSettings) : Keyed.keys s.table = layout.fields := rfl

theorem restored (s : CatalogSettings) : Restored decode encode s := by
  have hwrite : encode s = .object (present s.table) := rfl
  refine restored_of_table hwrite (by rw [keys_table]; decide) fun o fields h => ?_
  have hdirect : layout.Direct (Keyed.keys s.table) := .of_aliases rfl
  let met := layout.ofFields (Reading.ofFields fields)
  have hpattern : met.field "key_pattern" text (some KeyRule.defaultText) =
      (Except.ok s.keyPattern : Attempt String) :=
    h.field_restored hdirect rfl (restored_text s.keyPattern)
  have hdirectory : met.field "schema_dir" (optional (textAs "path string")) (some none) =
      (Except.ok s.schemaDir : Attempt (Option String)) :=
    h.field_restored hdirect rfl (restored_textOrNull "path string" s.schemaDir)
  refine Layout.close_ofFields.2 ?_
  rw [hpattern, hdirectory]
  rfl

end CatalogSettings

namespace ValidationSettings

theorem restored (s : ValidationSettings) : Restored decode encode s :=
  restored_single rfl (fun _ => rfl) rfl (restored_bool s.suppressHiddenListErrors)

end ValidationSettings

namespace LoggingSettings

theorem restored (s : LoggingSettings) : Restored decode encode s :=
  restored_single rfl (fun _ => rfl) rfl (restored_text s.filter)

end LoggingSettings

namespace Settings

def table (s : Settings) : List (String × Option Json) :=
  [("registry", some s.registry.encode), ("validation", some s.validation.encode),
    ("logging", some s.logging.encode)]

theorem keys_table (s : Settings) : Keyed.keys s.table = layout.fields := rfl

theorem restored (s : Settings) : Restored decode encode s := by
  have hwrite : encode s = .object (present s.table) := rfl
  refine restored_of_table hwrite (by rw [keys_table]; decide) fun o fields h => ?_
  have hdirect : layout.Direct (Keyed.keys s.table) := .of_aliases rfl
  let met := layout.ofFields (Reading.ofFields fields)
  have hregistry : met.field "registry" CatalogSettings.decode (some {}) =
      (Except.ok s.registry : Attempt CatalogSettings) :=
    h.field_restored hdirect rfl s.registry.restored
  have hvalidation : met.field "validation" ValidationSettings.decode (some {}) =
      (Except.ok s.validation : Attempt ValidationSettings) :=
    h.field_restored hdirect rfl s.validation.restored
  have hlogging : met.field "logging" LoggingSettings.decode (some {}) =
      (Except.ok s.logging : Attempt LoggingSettings) :=
    h.field_restored hdirect rfl s.logging.restored
  refine Layout.close_ofFields.2 ?_
  rw [hregistry, hvalidation, hlogging]
  rfl

end Settings

namespace Decode

/-- All records that are exchanged come back as they were decoded. -/
theorem codecs_stable :
    Stable FormConfiguration.decode FormConfiguration.encode ∧
      Stable FormComponent.decode FormComponent.encode ∧
      Stable ValidationError.decode ValidationError.encode ∧
      Stable RecordLinker.decode RecordLinker.encode ∧
      Stable LinkerErrors.decode LinkerErrors.encode ∧
      Stable DataRequirement.decode DataRequirement.encode ∧
      Stable DataRequirementSet.decode DataRequirementSet.encode ∧
      Stable Settings.decode Settings.encode := by
  refine ⟨FormConfiguration.stable, FormComponent.stable, ?_, ?_, ?_, ?_, ?_, ?_⟩
  · exact .of_restored (fun _ _ _ => trivial) fun e _ => e.restored
  · exact .of_restored (fun _ _ => RecordLinker.sorted_of_decode) fun _ => RecordLinker.restored
  · exact .of_restored (fun _ _ _ => trivial) fun l _ => l.restored
  · exact .of_restored (fun _ _ _ => trivial) fun r _ => r.restored
  · exact .of_restored (fun _ _ _ => trivial) fun s _ => s.restored
  · exact .of_restored (fun _ _ _ => trivial) fun s _ => s.restored

/-- Faults that are written with their message and by position, and a component with one below
it that is told by position, a name that no field has and expressions out of order. -/
theorem codecs_stable_mixed :
    let v : Json := .array [.string "d", .array [.object [("errorMessage", .string "m")]],
      .array [.array [.null, .string "n"]]]
    let x : LinkerErrors := ⟨"d", [⟨none, "m"⟩], [⟨none, "n"⟩]⟩
    let u : Json := .object [("type", .null), ("other", .bool true),
      ("components", .array [.array [.string "k", .bool true]]),
      ("expressions", .object [("b", .null), ("a", .null)])]
    let c : FormComponent := { components := [.bound "k" []]
                               expressions := some (.object [("a", .null), ("b", .null)]) }
    ofJson LinkerErrors.decode v = .ok x ∧ ofJson LinkerErrors.decode x.encode = .ok x ∧
      ofJson FormComponent.decode u = .ok c ∧ ofJson FormComponent.decode c.encode = .ok c := by
  intro v x u c
  have hx : ofJson LinkerErrors.decode v = .ok x := rfl
  have hc : ofJson FormComponent.decode u = .ok c := rfl
  exact ⟨hx, codecs_stable.2.2.2.2.1.decode_serialized v x hx _ (Or.inl rfl), hc,
    codecs_stable.2.1.decode_serialized u c hc _ (Or.inl rfl)⟩

end Decode

end SchemaCatalog
