import SchemaCatalog.Proofs.Codec.Stable
import SchemaCatalog.Schema.Definition

/-!
# Schemas that are written and decoded

A schema is written as a definition (`Schema.encode_eq`), and definitions are restored like other
records, with their attributes (`SchemaDefinition.restored`). What is left to fail is a kind: the
schema comes back when each of its targets is named, and otherwise the first property without a
named target is the error (`Schema.decode_eq`). Whatever a schema is decoded from, its targets are
named, and so it comes back unchanged from then on (`Schema.decode_encode_exact`).
-/

set_option autoImplicit false

namespace SchemaCatalog

open Decode

/-! ## Written kinds -/

namespace WireKind

/-- The fields that write the name and the kind of an attribute. -/
def table (name : String) (w : WireKind) : List (String × Option Json) :=
  [("name", some (.string name)), ("type", some (.string w.type)),
    ("contentType", w.contentType.map .string), ("entitySchema", w.entitySchema.map .string)]

/-- The name and the kind of an attribute are restored with its fields. -/
theorem fields_restored {o : FieldOrder} {l : Layout} {name : String} {w : WireKind}
    {rest : List (String × Option Json)} {fields : List (String × Json)}
    (h : WrittenFrom (o.arrangeTable (w.table name ++ rest)) fields)
    (hdirect : l.Direct (Keyed.keys (w.table name ++ rest))) :
    let met := l.ofFields (Reading.ofFields fields)
    met.field "name" text none = (Except.ok name : Attempt String) ∧
      met.field "type" text none = (Except.ok w.type : Attempt String) ∧
      met.field "contentType" (optional text) (some none) =
        (Except.ok w.contentType : Attempt (Option String)) ∧
      met.field "entitySchema" (optional text) (some none) =
        (Except.ok w.entitySchema : Attempt (Option String)) := by
  have htext : ∀ s, Restored (optional text) (fun s? => (s?.map Json.string).getD .null) (some s) :=
    fun s => restored_some (restored_text s) rfl
  refine ⟨?_, ?_, ?_, ?_⟩
  · exact h.field_restored hdirect rfl (restored_text name)
  · exact h.field_restored hdirect rfl (restored_text w.type)
  · exact h.field_present hdirect rfl fun s _ => htext s
  · exact h.field_present hdirect rfl fun s _ => htext s

end WireKind

/-! ## Declared attributes -/

namespace AttributeDefinition

/-- The fields of an attribute; configurations are written only when there are some. -/
def table (d : AttributeDefinition) : List (String × Option Json) :=
  d.wire.table d.name ++ [("attributeConfigurations",
    if d.configurations.isEmpty then none else some (.array d.configurations))]

theorem keys_table (d : AttributeDefinition) : Keyed.keys d.table = layout.fields := rfl

def encode (d : AttributeDefinition) : Json := .object (present d.table)

theorem restored {d : AttributeDefinition} (hcanonical : ∀ c ∈ d.configurations, c.Canonical) :
    Restored decode encode d := by
  have hwrite : encode d = .object (present d.table) := rfl
  refine restored_of_table hwrite (by rw [keys_table]; decide) fun o fields h => ?_
  have hdirect : layout.Direct (Keyed.keys d.table) := .of_aliases rfl
  let met := layout.ofFields (Reading.ofFields fields)
  obtain ⟨hname, htype, hcontent, hentity⟩ := WireKind.fields_restored h hdirect
  have hconfigurations : met.field "attributeConfigurations" (list json) (some []) =
      (Except.ok d.configurations : Attempt (List Json)) := by
    refine h.field_items hdirect ?_ fun _ => restored_values hcanonical
    rfl
  refine Layout.close_ofFields.2 ?_
  rw [hname, htype, hcontent, hentity, hconfigurations]
  rfl

/-- The configurations that are decoded are canonical. -/
theorem canonical_of_decode {r : Reading} {d : AttributeDefinition} (h : decode r = .ok d) :
    ∀ c ∈ d.configurations, c.Canonical := by
  obtain ⟨e, -, hclose⟩ := bind_eq_ok_iff.1 h
  obtain ⟨hattempt, -, -⟩ := Entries.close_eq_ok_iff.1 hclose
  -- only the last field counts, yet each before it has a part in the record
  obtain ⟨_, configurations, hfour, hconfigurations, rfl⟩ := Attempt.seq_eq_ok_iff.1 hattempt
  obtain ⟨_, entity, hthree, -, rfl⟩ := Attempt.seq_eq_ok_iff.1 hfour
  obtain ⟨_, content, htwo, -, rfl⟩ := Attempt.seq_eq_ok_iff.1 hthree
  obtain ⟨_, type, hone, -, rfl⟩ := Attempt.seq_eq_ok_iff.1 htwo
  obtain ⟨name, -, rfl⟩ := Attempt.map_eq_ok_iff.1 hone
  refine Entries.of_field_eq_ok (P := fun cs => ∀ c ∈ cs, c.Canonical) hconfigurations ?_ ?_
  · intro missing hmissing
    cases hmissing
    exact List.forall_mem_nil _
  · intro r read hread c hc
    obtain ⟨item, hitem⟩ := exists_of_list_eq_ok hread c hc
    exact canonical_of_json hitem

end AttributeDefinition

/-! ## Computed attributes -/

namespace ComputedDefinition

/-- The fields of a computed attribute. -/
def table (d : ComputedDefinition) : List (String × Option Json) :=
  d.wire.table d.name ++ [("expression", some (.string d.expression))]

theorem keys_table (d : ComputedDefinition) : Keyed.keys d.table = layout.fields := rfl

def encode (d : ComputedDefinition) : Json := .object (present d.table)

theorem restored (d : ComputedDefinition) : Restored decode encode d := by
  have hwrite : encode d = .object (present d.table) := rfl
  refine restored_of_table hwrite (by rw [keys_table]; decide) fun o fields h => ?_
  have hdirect : layout.Direct (Keyed.keys d.table) := .of_aliases rfl
  let met := layout.ofFields (Reading.ofFields fields)
  obtain ⟨hname, htype, hcontent, hentity⟩ := WireKind.fields_restored h hdirect
  have hexpression : met.field "expression" text (some "") =
      (Except.ok d.expression : Attempt String) :=
    h.field_restored hdirect rfl (restored_text d.expression)
  refine Layout.close_ofFields.2 ?_
  rw [hname, htype, hcontent, hentity, hexpression]
  rfl

end ComputedDefinition

/-! ## Definitions of schemas -/

namespace SchemaDefinition

/-- The fields of a definition; an identifier and a description are written only when there is
one. -/
def table (d : SchemaDefinition) : List (String × Option Json) :=
  [("id", d.id.map .nat), ("key", some (.string d.key)), ("name", some (.string d.name)),
    ("description", d.description.map .string),
    ("attributes", some (.array (d.attributes.map AttributeDefinition.encode))),
    ("computedAttributes", some (.array (d.computed.map ComputedDefinition.encode))),
    ("version", some (.nat d.version))]

theorem keys_table (d : SchemaDefinition) : Keyed.keys d.table = layout.fields := rfl

def encode (d : SchemaDefinition) : Json := .object (present d.table)

/-- A definition is restored when the configurations of its attributes are canonical. -/
theorem restored {d : SchemaDefinition}
    (hcanonical : ∀ a ∈ d.attributes, ∀ c ∈ a.configurations, c.Canonical) :
    Restored decode encode d := by
  have hwrite : encode d = .object (present d.table) := rfl
  refine restored_of_table hwrite (by rw [keys_table]; decide) fun o fields h => ?_
  have hdirect : layout.Direct (Keyed.keys d.table) := .of_aliases rfl
  let met := layout.ofFields (Reading.ofFields fields)
  have hid : met.field "id" (optional nat) (some none) =
      (Except.ok d.id : Attempt (Option Nat)) :=
    h.field_present hdirect rfl fun n _ => restored_some (restored_nat n) rfl
  have hkey : met.field "key" text none = (Except.ok d.key : Attempt String) :=
    h.field_restored hdirect rfl (restored_text d.key)
  have hname : met.field "name" text (some "") = (Except.ok d.name : Attempt String) :=
    h.field_restored hdirect rfl (restored_text d.name)
  have hdescription : met.field "description" (optional text) (some none) =
      (Except.ok d.description : Attempt (Option String)) :=
    h.field_present hdirect rfl fun s _ => restored_some (restored_text s) rfl
  have hattributes : met.field "attributes" (list AttributeDefinition.decode) (some []) =
      (Except.ok d.attributes : Attempt (List AttributeDefinition)) :=
    h.field_restored hdirect rfl
      (restored_list fun a ha => AttributeDefinition.restored (hcanonical a ha))
  have hcomputed : met.field "computedAttributes" (list ComputedDefinition.decode) (some []) =
      (Except.ok d.computed : Attempt (List ComputedDefinition)) :=
    h.field_restored hdirect rfl (restored_list fun a _ => a.restored)
  have hversion : met.field "version" nat (some 0) = (Except.ok d.version : Attempt Nat) :=
    h.field_restored hdirect rfl (restored_nat d.version)
  refine Layout.close_ofFields.2 ?_
  rw [hid, hkey, hname, hdescription, hattributes, hcomputed, hversion]
  rfl

/-- The configurations of the attributes that are decoded are canonical. -/
theorem canonical_of_decode {r : Reading} {d : SchemaDefinition} (h : decode r = .ok d) :
    ∀ a ∈ d.attributes, ∀ c ∈ a.configurations, c.Canonical := by
  obtain ⟨e, -, hclose⟩ := bind_eq_ok_iff.1 h
  obtain ⟨hattempt, -, -⟩ := Entries.close_eq_ok_iff.1 hclose
  -- only the fifth field counts, yet each of the others has a part in the record
  obtain ⟨_, version, hsix, -, rfl⟩ := Attempt.seq_eq_ok_iff.1 hattempt
  obtain ⟨_, computed, hfive, -, rfl⟩ := Attempt.seq_eq_ok_iff.1 hsix
  obtain ⟨_, attributes, hfour, hattributes, rfl⟩ := Attempt.seq_eq_ok_iff.1 hfive
  obtain ⟨_, description, hthree, -, rfl⟩ := Attempt.seq_eq_ok_iff.1 hfour
  obtain ⟨_, name, htwo, -, rfl⟩ := Attempt.seq_eq_ok_iff.1 hthree
  obtain ⟨_, key, hone, -, rfl⟩ := Attempt.seq_eq_ok_iff.1 htwo
  obtain ⟨id, -, rfl⟩ := Attempt.map_eq_ok_iff.1 hone
  refine Entries.of_field_eq_ok
    (P := fun as => ∀ a ∈ as, ∀ c ∈ a.configurations, c.Canonical) hattributes ?_ ?_
  · intro missing hmissing
    cases hmissing
    exact List.forall_mem_nil _
  · intro r read hread a ha
    obtain ⟨item, hitem⟩ := exists_of_list_eq_ok hread a ha
    exact AttributeDefinition.canonical_of_decode hitem

end SchemaDefinition

/-! ## Definitions of written schemas -/

/-- What is written of a property. -/
def Property.definition (p : Property) : AttributeDefinition :=
  ⟨p.name, p.kind.toWire, p.configurations⟩

/-- What is written of a computed property. -/
def ComputedProperty.definition (p : ComputedProperty) : ComputedDefinition :=
  ⟨p.name, p.kind.toWire, p.expression⟩

namespace Schema

/-- What is written of a schema. -/
def definition (x : Schema) : SchemaDefinition :=
  ⟨x.id, x.key, x.name, x.description, x.properties.map Property.definition,
    x.computed.map ComputedProperty.definition, x.version⟩

/-- The configurations are values as they are kept, with the fields of objects in key order. -/
def Canonical (x : Schema) : Prop := ∀ p ∈ x.properties, ∀ c ∈ p.configurations, c.Canonical

theorem encodeProperty_eq (p : Property) : encodeProperty p = p.definition.encode := by
  obtain ⟨name, kind, configurations⟩ := p
  cases configurations <;> cases kind <;> rfl

theorem encodeComputed_eq (p : ComputedProperty) : encodeComputed p = p.definition.encode := by
  obtain ⟨name, kind, expression⟩ := p
  cases kind <;> rfl

/-- A schema is written as its definition. -/
theorem encode_eq (x : Schema) : encode x = x.definition.encode := by
  have hproperties : x.properties.map encodeProperty =
      x.definition.attributes.map AttributeDefinition.encode := by
    rw [definition, List.map_map]
    exact List.map_congr_left fun p _ => encodeProperty_eq p
  have hcomputed : x.computed.map encodeComputed =
      x.definition.computed.map ComputedDefinition.encode := by
    rw [definition, List.map_map]
    exact List.map_congr_left fun p _ => encodeComputed_eq p
  rw [encode, hproperties, hcomputed]
  obtain ⟨id, key, name, description, properties, computed, version⟩ := x
  cases id <;> cases description <;> rfl

/-- A schema that is serialized is decoded as its definition. -/
theorem decode_of_serialized {x : Schema} (hcanonical : x.Canonical) {v : Json}
    (hv : Serialized (encode x) v) : SchemaDefinition.decode (.ofJson v) = .ok x.definition := by
  obtain ⟨o, rfl⟩ := serialized_iff.1 hv
  have hattributes : ∀ a ∈ x.definition.attributes, ∀ c ∈ a.configurations, c.Canonical :=
    List.forall_mem_map.2 fun p hp => hcanonical p hp
  rw [encode_eq]
  exact SchemaDefinition.restored hattributes o

end Schema

/-! ## Kinds of definitions -/

namespace Kind

/-- The target, if the kind has one, has a character that is not blank. -/
def Named (k : Kind) : Prop :=
  ∀ target, k.target? = some target → ∃ c ∈ target.toList, Text.isBlankChar c = false

/-- The kind has a target, and it is blank. -/
def isNameless (k : Kind) : Bool := k.target?.any Text.isBlank

theorem isNameless_eq_false_iff {k : Kind} : k.isNameless = false ↔ k.Named := by
  rw [isNameless, Named]
  cases k.target? with
  | none => simp
  | some target => simp [Text.isBlank]

theorem entityKey?_eq_ok {property : String} {entitySchema : Option String} {key : String}
    (h : entityKey? property entitySchema = .ok key) : Text.isBlank key = false := by
  cases entitySchema with
  | none => cases h
  | some key' =>
      rw [entityKey?] at h
      cases hblank : Text.isBlank key' with
      | true =>
          rw [hblank] at h
          cases h
      | false =>
          rw [hblank] at h
          cases h
          exact hblank

/-- A kind that is read has a named target, if any. -/
theorem named_of_ofWire? {property : String} {w : WireKind} {k : Kind}
    (h : ofWire? property w = .ok k) : k.Named := by
  apply isNameless_eq_false_iff.1
  rw [ofWire?] at h
  split at h
  · -- a nested entity
    obtain ⟨key, hkey, rfl⟩ := map_eq_ok_iff.1 h
    exact entityKey?_eq_ok hkey
  · split at h
    · split at h
      · -- a list, of nested entities or of scalars by its content type
        rw [listOf?] at h
        split at h
        · obtain ⟨key, hkey, rfl⟩ := map_eq_ok_iff.1 h
          exact entityKey?_eq_ok hkey
        · obtain ⟨t, -, rfl⟩ := map_eq_ok_iff.1 h
          rfl
      · cases h
    · obtain ⟨t, -, rfl⟩ := map_eq_ok_iff.1 h
      rfl

/-- What is made of a kind is made again of the kind that is read back, unless it is nameless. -/
theorem bind_ofWire?_toWire {α : Type} (make : Kind → α) (property : String) (k : Kind) :
    (do pure (make (← ofWire? property k.toWire))) =
      if k.isNameless then .error (.noEntitySchema property) else .ok (make k) := by
  rw [ofWire?_toWire]
  unfold isNameless
  split
  · rfl
  · rfl

end Kind

/-- The property that a definition stands for. -/
def Property.ofDefinition? (d : AttributeDefinition) : Except DefinitionError Property := do
  pure ⟨d.name, ← Kind.ofWire? d.name d.wire, d.configurations⟩

/-- The computed property that a definition stands for. -/
def ComputedProperty.ofDefinition? (d : ComputedDefinition) :
    Except DefinitionError ComputedProperty := do
  pure ⟨d.name, ← Kind.ofWire? d.name d.wire, d.expression⟩

theorem Property.ofDefinition?_definition (p : Property) : ofDefinition? p.definition =
    if p.kind.isNameless then .error (.noEntitySchema p.name) else .ok p :=
  Kind.bind_ofWire?_toWire (fun k => Property.mk p.name k p.configurations) p.name p.kind

theorem ComputedProperty.ofDefinition?_definition (p : ComputedProperty) :
    ofDefinition? p.definition =
      if p.kind.isNameless then .error (.noEntitySchema p.name) else .ok p :=
  Kind.bind_ofWire?_toWire (fun k => ComputedProperty.mk p.name k p.expression) p.name p.kind

theorem Property.of_ofDefinition? {d : AttributeDefinition} {p : Property}
    (h : ofDefinition? d = .ok p) : p.kind.Named ∧ p.configurations = d.configurations := by
  obtain ⟨k, hk, h⟩ := bind_eq_ok_iff.1 h
  cases h
  exact ⟨Kind.named_of_ofWire? hk, rfl⟩

theorem ComputedProperty.of_ofDefinition? {d : ComputedDefinition} {p : ComputedProperty}
    (h : ofDefinition? d = .ok p) : p.kind.Named := by
  obtain ⟨k, hk, h⟩ := bind_eq_ok_iff.1 h
  cases h
  exact Kind.named_of_ofWire? hk

namespace Schema

/-- Every target has a character that is not blank. -/
def TargetsNamed (x : Schema) : Prop := ∀ m ∈ x.members, m.2.Named

/-- The first property with a target that is blank. -/
def nameless? (x : Schema) : Option (String × Kind) := x.members.find? fun m => m.2.isNameless

theorem nameless?_eq_none_iff {x : Schema} : x.nameless? = none ↔ x.TargetsNamed := by
  rw [nameless?, List.find?_eq_none]
  constructor
  · intro h m hm
    exact Kind.isNameless_eq_false_iff.1 (Bool.eq_false_iff.2 (h m hm))
  · intro h m hm
    exact Bool.eq_false_iff.1 (Kind.isNameless_eq_false_iff.2 (h m hm))

theorem toSchema?_eq (d : SchemaDefinition) :
    d.toSchema? = (do
      let properties ← d.attributes.mapM Property.ofDefinition?
      let computed ← d.computed.mapM ComputedProperty.ofDefinition?
      pure ⟨d.id, d.key, d.name, d.description, properties, computed, d.version⟩) := rfl

/-- A definition stands for the schema that it was written from, if its targets are named. -/
theorem toSchema?_definition (x : Schema) : x.definition.toSchema? =
    x.nameless?.elim (.ok x) fun m => .error (.noEntitySchema m.1) := by
  have hproperties : x.definition.attributes.mapM Property.ofDefinition? =
      (x.properties.find? fun p => p.kind.isNameless).elim (.ok x.properties)
        fun p => .error (.noEntitySchema p.name) := by
    rw [definition, List.mapM_map]
    exact mapM_eq_find? (fun p : Property => p.kind.isNameless)
      (fun p => DefinitionError.noEntitySchema p.name) fun p _ => p.ofDefinition?_definition
  have hcomputed : x.definition.computed.mapM ComputedProperty.ofDefinition? =
      (x.computed.find? fun p => p.kind.isNameless).elim (.ok x.computed)
        fun p => .error (.noEntitySchema p.name) := by
    rw [definition, List.mapM_map]
    exact mapM_eq_find? (fun p : ComputedProperty => p.kind.isNameless)
      (fun p => DefinitionError.noEntitySchema p.name) fun p _ => p.ofDefinition?_definition
  rw [toSchema?_eq, hproperties, hcomputed, nameless?, members, List.find?_append, List.find?_map,
    List.find?_map]
  simp only [Function.comp_def]
  -- a declared property is met before a computed one, here and among the members
  cases x.properties.find? fun p => p.kind.isNameless with
  | some p => rfl
  | none =>
      cases x.computed.find? fun p => p.kind.isNameless with
      | some p => rfl
      | none => rfl

/-- The targets of a schema that a definition stands for are named. -/
theorem targetsNamed_of_toSchema? {d : SchemaDefinition} {x : Schema} (h : d.toSchema? = .ok x) :
    x.TargetsNamed := by
  rw [toSchema?_eq] at h
  obtain ⟨properties, hproperties, h⟩ := bind_eq_ok_iff.1 h
  obtain ⟨computed, hcomputed, h⟩ := bind_eq_ok_iff.1 h
  cases h
  intro m hm
  rcases List.mem_append.1 hm with hm | hm
  · obtain ⟨p, hp, rfl⟩ := List.mem_map.1 hm
    obtain ⟨d', -, hd'⟩ := exists_of_mapM_eq_ok hproperties p hp
    exact (Property.of_ofDefinition? hd').1
  · obtain ⟨p, hp, rfl⟩ := List.mem_map.1 hm
    obtain ⟨d', -, hd'⟩ := exists_of_mapM_eq_ok hcomputed p hp
    exact ComputedProperty.of_ofDefinition? hd'

/-- The configurations of a schema are those of its definition. -/
theorem canonical_of_toSchema? {d : SchemaDefinition} {x : Schema} (h : d.toSchema? = .ok x)
    (hcanonical : ∀ a ∈ d.attributes, ∀ c ∈ a.configurations, c.Canonical) :
    x.Canonical := by
  rw [toSchema?_eq] at h
  obtain ⟨properties, hproperties, h⟩ := bind_eq_ok_iff.1 h
  obtain ⟨computed, -, h⟩ := bind_eq_ok_iff.1 h
  cases h
  intro p hp
  obtain ⟨a, ha, hread⟩ := exists_of_mapM_eq_ok hproperties p hp
  rw [(Property.of_ofDefinition? hread).2]
  exact hcanonical a ha

/-- The targets of a schema that is decoded are named, and its configurations canonical. -/
theorem of_decode_eq_ok {r : Reading} {x : Schema} (h : decode r = .ok x) :
    x.TargetsNamed ∧ x.Canonical := by
  obtain ⟨d, hd, hschema⟩ := bind_eq_ok_iff.1 h
  have hschema : d.toSchema? = .ok x := by
    cases hread : d.toSchema? with
    | error e =>
        rw [hread] at hschema
        cases hschema
    | ok y =>
        rw [hread] at hschema
        cases hschema
        rfl
  exact ⟨targetsNamed_of_toSchema? hschema,
    canonical_of_toSchema? hschema (SchemaDefinition.canonical_of_decode hd)⟩

/-- A schema that is serialized comes back if its targets are named, and otherwise the first
property with a blank target is the error. -/
theorem decode_eq {x : Schema} (hcanonical : x.Canonical) {v : Json} (hv : Serialized (encode x) v) :
    ofJson decode v =
      x.nameless?.elim (.ok x) fun m => .error (.definition (.noEntitySchema m.1)) := by
  rw [ofJson, decode, decode_of_serialized hcanonical hv]
  change x.definition.toSchema?.mapError DecodeError.definition = _
  rw [toSchema?_definition]
  cases x.nameless? with
  | none => rfl
  | some m => rfl

/-- What the schema that a value stands for is written as. -/
def rewritten (v : Json) : Except DecodeError Json := encode <$> ofJson decode v

/-- A serialized schema comes back exactly when every target is named, and otherwise a property is
reported. A schema that was decoded, from whatever reading, has named targets: it comes back from
what it is serialized to, and this is written again as it was. -/
theorem decode_encode_exact :
    (∀ x : Schema, x.Canonical →
      (∃ v, ofJson json (encode x) = .ok v) ∧
      ∀ v, Serialized (encode x) v →
        (ofJson decode v = .ok x ↔ x.TargetsNamed) ∧
        (¬ x.TargetsNamed → ∃ m, x.nameless? = some m ∧
          ofJson decode v = .error (.definition (.noEntitySchema m.1)))) ∧
    ∀ (r : Reading) (x : Schema), decode r = .ok x →
      x.TargetsNamed ∧ x.Canonical ∧
      (∀ v, Serialized (encode x) v → ofJson decode v = .ok x) ∧
      rewritten (encode x) = .ok (encode x) ∧
      ∀ v, ofJson json (encode x) = .ok v → (rewritten v >>= fun w => ofJson json w) = .ok v := by
  constructor
  · intro x hcanonical
    refine ⟨⟨_, json_ofJson (encode x)⟩, fun v hv => ?_⟩
    rw [decode_eq hcanonical hv, ← nameless?_eq_none_iff]
    cases x.nameless? with
    | none => exact ⟨⟨fun _ => rfl, fun _ => rfl⟩, fun h => absurd rfl h⟩
    | some m =>
        refine ⟨⟨fun h => ?_, fun h => ?_⟩, fun _ => ⟨m, rfl, rfl⟩⟩
        · cases h
        · cases h
  · intro r x h
    obtain ⟨hnamed, hcanonical⟩ := of_decode_eq_ok h
    have hback : ∀ v, Serialized (encode x) v → ofJson decode v = .ok x := by
      intro v hv
      rw [decode_eq hcanonical hv, nameless?_eq_none_iff.2 hnamed]
      rfl
    refine ⟨hnamed, hcanonical, hback, ?_, ?_⟩
    · rw [rewritten, hback _ (.inl rfl)]
      rfl
    · intro v hv
      rw [rewritten, hback v (.inr hv)]
      exact hv

/-- From items in the order of declaration, with other letters and a content type too many. -/
theorem decode_encode_exact_positional :
    let r : Reading := .ofJson (.array [.null, .string "k", .string "n", .null,
      .array [.array [.string "a", .string "eNTITY", .string "String", .string "t"]]])
    let x : Schema := ⟨none, "k", "n", none, [⟨"a", .reference "t", []⟩], [], 0⟩
    decode r = .ok x ∧ ofJson decode (encode x) = .ok x := by
  intro r x
  have hdecoded : decode r = .ok x := rfl
  exact ⟨hdecoded, (decode_encode_exact.2 r x hdecoded).2.2.1 _ (.inl rfl)⟩

end Schema

end SchemaCatalog
