import SchemaCatalog.Codec.Decode

/-!
# Types as they are written

A definition writes a kind in up to three fields; `Kind.ofWire?` reads them and
`Kind.toWire` writes them (`ofWire?_toWire`). The case of the names in these fields does
not count.

A scalar type alone is its name, or an object with its name as the only key and null for
its value. There the case of the name counts.
-/

set_option autoImplicit false

namespace SchemaCatalog

namespace ScalarType

/-- The scalar type with a name, the case of ASCII letters apart. -/
def ofName? (s : String) : Option ScalarType := all.find? fun t => Text.sameLetters t.name s

theorem ofName?_name (t : ScalarType) : ofName? t.name = some t := by
  cases t <;> decide

end ScalarType

/-! ## Kinds in definitions -/

/-- The fields in which a definition writes a kind. -/
structure WireKind where
  type : String
  contentType : Option String := none
  entitySchema : Option String := none
deriving DecidableEq, Repr

namespace Kind

/-- The fields that a definition writes for a kind. -/
def toWire : Kind → WireKind
  | .scalar t => ⟨t.name, none, none⟩
  | .listOfScalar t => ⟨listType, some t.name, none⟩
  | .reference key => ⟨entityType, none, some key⟩
  | .listOfReference key => ⟨listType, some entityType, some key⟩

/-- The schema key of a nested entity, which must not be blank. -/
def entityKey? (property : String) (entitySchema : Option String) :
    Except DefinitionError String :=
  match entitySchema with
  | some key => if Text.isBlank key then throw (.noEntitySchema property) else pure key
  | none => throw (.noEntitySchema property)

/-- The scalar type with a name. -/
def scalarType? (property typeName : String) : Except DefinitionError ScalarType :=
  match ScalarType.ofName? typeName with
  | some t => pure t
  | none => throw (.unknownType property typeName)

/-- The kind of a list with a content type. -/
def listOf? (property : String) (content : String) (entitySchema : Option String) :
    Except DefinitionError Kind :=
  if Text.sameLetters content entityType then
    .listOfReference <$> entityKey? property entitySchema
  else .listOfScalar <$> scalarType? property content

/-- The kind that the fields of an attribute stand for. -/
def ofWire? (property : String) (w : WireKind) : Except DefinitionError Kind :=
  if Text.sameLetters w.type entityType then
    .reference <$> entityKey? property w.entitySchema
  else if Text.sameLetters w.type listType then
    match w.contentType with
    | some content => listOf? property content w.entitySchema
    | none => throw (.noContentType property)
  else .scalar <$> scalarType? property w.type

theorem sameLetters_name_entityType (t : ScalarType) :
    Text.sameLetters t.name entityType = false := by
  cases t <;> decide

theorem sameLetters_name_listType (t : ScalarType) :
    Text.sameLetters t.name listType = false := by
  cases t <;> decide

/-- A kind is read back from its own fields exactly when the key that it refers to, if
any, is not blank. -/
theorem ofWire?_toWire (property : String) (k : Kind) :
    ofWire? property k.toWire =
      if k.target?.any Text.isBlank then .error (.noEntitySchema property) else .ok k := by
  have he : Text.sameLetters entityType entityType = true := Text.sameLetters_refl _
  have hl : Text.sameLetters listType listType = true := Text.sameLetters_refl _
  have hn : Text.sameLetters listType entityType = false := by decide
  cases k with
  | scalar t =>
    simp only [ofWire?, toWire, sameLetters_name_entityType, sameLetters_name_listType,
      scalarType?, ScalarType.ofName?_name, target?]
    rfl
  | listOfScalar t =>
    simp only [ofWire?, toWire, hn, hl, listOf?, sameLetters_name_entityType, scalarType?,
      ScalarType.ofName?_name, target?]
    rfl
  | reference key =>
    simp only [ofWire?, toWire, he, if_true, entityKey?, target?, Option.any_some]
    by_cases hb : Text.isBlank key = true <;> simp [hb] <;> rfl
  | listOfReference key =>
    simp only [ofWire?, toWire, he, hl, hn, if_true, listOf?, entityKey?, target?,
      Option.any_some]
    by_cases hb : Text.isBlank key = true <;> simp [hb] <;> rfl

end Kind

/-! ## Scalar types as JSON -/

namespace ScalarType

open Decode

/-- The scalar type with exactly a name. -/
def ofExactName? (name : String) : Except DecodeError ScalarType :=
  match all.find? fun t => t.name == name with
  | some t => .ok t
  | none => .error (.unknownVariant name (all.map ScalarType.name))

/-- The scalar type that a reading stands for. -/
def decode : Reading → Except DecodeError ScalarType
  | .string s => ofExactName? s
  | .object [(name, v)] => do
      let t ← ofExactName? name
      match v.attempted with
      | .null => pure t
      | v => throw (mismatch "unit" v)
  | .object _ => .error (.invalidValue .map "map with a single key")
  | r => .error (mismatch "string or map" r)

def encode (t : ScalarType) : Json := .string t.name

end ScalarType

end SchemaCatalog
