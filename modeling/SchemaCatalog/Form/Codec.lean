import SchemaCatalog.Codec.Decode
import SchemaCatalog.Form.Basic

/-!
# Forms as JSON

Every field of a component may be missing. Written are only whether it takes input and
the fields that differ from what is assumed when they are missing. The components below
a component are decoded where they are met, so decoding follows the reading.
-/

set_option autoImplicit false

namespace SchemaCatalog

open Decode

namespace FormComponent

def layout : Layout :=
  ⟨"FormComponent", ["key", "input", "type", "components", "list", "hidden", "expressions"], []⟩

/-- The component put together from its fields; `below` is what the field with the
components decodes to. -/
def assemble (e : Entries) (below : Except DecodeError (List FormComponent)) :
    Except DecodeError FormComponent :=
  e.close <|
    FormComponent.mk
    <$> e.field "key" (optional text) (some none)
    <*> e.field "input" bool (some false)
    <*> e.field "type" (optional text) (some none)
    <*> e.field "components" (fun _ => below) (some [])
    <*> e.field "list" bool (some false)
    <*> e.field "hidden" bool (some false)
    <*> e.field "expressions" (optional json) (some none)

mutual

/-- The component that a reading stands for. -/
def decode : Reading → Except DecodeError FormComponent
  | .object fields => assemble (layout.ofFields fields) (decodeBelow fields)
  | .array items => assemble (layout.ofItems items) (decodeAt 3 items)
  | r => .error (layout.mismatch r)

/-- The components in the first field with that name. -/
def decodeBelow : List (String × Reading) → Except DecodeError (List FormComponent)
  | [] => .ok []
  | (name, r) :: rest => if name = "components" then decodeSequence r else decodeBelow rest

/-- The components in the item at a position. -/
def decodeAt : Nat → List Reading → Except DecodeError (List FormComponent)
  | _, [] => .ok []
  | 0, r :: _ => decodeSequence r
  | n + 1, _ :: rest => decodeAt n rest

/-- The components that a reading of an array stands for. -/
def decodeSequence : Reading → Except DecodeError (List FormComponent)
  | .array items => decodeItems items
  | .unfinished r _ => decodeSequence r
  | r => .error (mismatch "a sequence" r)

/-- The components that some readings stand for. -/
def decodeItems : List Reading → Except DecodeError (List FormComponent)
  | [] => .ok []
  | r :: rs => do
      let c ← decode r
      let cs ← decodeItems rs
      pure (c :: cs)

end

/-- A field that is written only when it is true. -/
def flagField (name : String) (value : Bool) : List (String × Json) :=
  if value then [(name, .bool true)] else []

/-- A field that is written only when there is a text. -/
def textField (name : String) : Option String → List (String × Json)
  | none => []
  | some s => [(name, .string s)]

mutual

/-- A component as it is written. -/
def encode : FormComponent → Json
  | ⟨key, input, type, components, list, hidden, expressions⟩ =>
      .object (textField "key" key ++ [("input", .bool input)] ++ textField "type" type
        ++ (if components.isEmpty then [] else [("components", .array (encodeAll components))])
        ++ flagField "list" list ++ flagField "hidden" hidden
        ++ (expressions.map fun v => ("expressions", v)).toList)

/-- Some components as they are written. -/
def encodeAll : List FormComponent → List Json
  | [] => []
  | c :: cs => encode c :: encodeAll cs

end

end FormComponent

namespace FormConfiguration

def layout : Layout := ⟨"FormConfiguration", ["components"], []⟩

/-- The form that a reading stands for. -/
def decode (r : Reading) : Except DecodeError FormConfiguration := do
  let e ← layout.entries r
  e.close <| FormConfiguration.mk <$> e.field "components" FormComponent.decodeSequence (some [])

def encode (f : FormConfiguration) : Json :=
  .object [("components", .array (FormComponent.encodeAll f.components))]

end FormConfiguration

namespace ValidationError

/-- The name of the fault may be written as its message. -/
def layout : Layout :=
  ⟨"ValidationError", ["controlName", "errorName"], [("errorMessage", "errorName")]⟩

/-- A missing control name is none in an object; an array needs an item for it. -/
def decode (r : Reading) : Except DecodeError ValidationError := do
  let e ← layout.entries r
  e.close <|
    ValidationError.mk
    <$> e.field "controlName" (optional text) (if e.positional then none else some none)
    <*> e.field "errorName" text none

/-- The absence of a control name is written as null. -/
def encode (e : ValidationError) : Json :=
  .object [("controlName", (e.controlName.map Json.string).getD .null),
    ("errorName", .string e.errorName)]

end ValidationError

end SchemaCatalog
