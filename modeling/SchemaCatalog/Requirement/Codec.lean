import SchemaCatalog.Requirement.Basic

/-!
# Data requirements as JSON

A requirement may lack its user types, and then applies to all; they are written only
when there are some.
-/

set_option autoImplicit false

namespace SchemaCatalog

open Decode

namespace DataRequirement

def layout : Layout := ⟨"DataRequirement", ["path", "type", "userTypes"], []⟩

/-- The requirement that a reading stands for. -/
def decode (r : Reading) : Except DecodeError DataRequirement := do
  let e ← layout.entries r
  e.close <|
    DataRequirement.mk
    <$> e.field "path" text none
    <*> e.field "type" text none
    <*> e.field "userTypes" (list text) (some [])

def encode (r : DataRequirement) : Json :=
  .object ([("path", .string r.path), ("type", .string r.type)]
    ++ (if r.userTypes.isEmpty then []
        else [("userTypes", .array (r.userTypes.map .string))]))

end DataRequirement

namespace DataRequirementSet

def layout : Layout := ⟨"DataRequirementSet", ["requirements"], []⟩

/-- The set of requirements that a reading stands for. -/
def decode (r : Reading) : Except DecodeError DataRequirementSet := do
  let e ← layout.entries r
  e.close <|
    DataRequirementSet.mk <$> e.field "requirements" (list DataRequirement.decode) (some [])

def encode (s : DataRequirementSet) : Json :=
  .object [("requirements", .array (s.requirements.map DataRequirement.encode))]

end DataRequirementSet

end SchemaCatalog
