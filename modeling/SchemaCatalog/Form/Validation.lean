import SchemaCatalog.Catalog.Basic
import SchemaCatalog.Text.Basic

/-!
# Validation of forms

A form is checked against the schema in scope, from the top down and in document order.
Components that take no input leave the schema in scope as it is; one that is bound to
a reference puts the target in scope below it. The keys met so far are passed along, so
that a key that occurs again is found wherever it stands, and below a hidden list the
defects may be left out while its keys still count.
-/

set_option autoImplicit false

namespace SchemaCatalog

namespace FormComponent

/-- What was found in a part of a form, and the keys met up to its end. -/
structure Findings where
  defects : List FormDefect
  seen : List String
deriving DecidableEq, Repr

/-- The findings with their defects left out. -/
def Findings.silenced (f : Findings) (silent : Bool) : Findings :=
  if silent then { f with defects := [] } else f

/-- The key of a component that takes input, unless it is missing or blank. -/
def usableKey? : Option String → Option String
  | none => none
  | some key => if Text.isBlank key then none else some key

mutual

/-- What is found at a component and below it. -/
def check (look : Lookup) (suppress : Bool) (schema : Schema) :
    FormComponent → List String → Except CatalogError Findings
  | ⟨key?, input, _, components, list, hidden, _⟩, seen =>
      let silent := suppress && hidden && list
      if !input then (·.silenced silent) <$> checkAll look suppress schema components seen
      else match usableKey? key? with
        | none => .ok ⟨[.missingKey], seen⟩
        | some key =>
            if key ∈ seen then .ok ⟨[.duplicateKey key], seen⟩
            else
              let seen := key :: seen
              match schema.kind? (Text.lastSegment key) with
              | none => .ok ⟨[.notInSchema key schema.key], seen⟩
              | some kind =>
                  if components.isEmpty then .ok ⟨[], seen⟩
                  else match kind.target? with
                    | none => .ok ⟨[.notAParent key], seen⟩
                    | some target => do
                        match ← look target with
                        | none => pure ⟨[.targetNotFound key target], seen⟩
                        | some related =>
                            (·.silenced silent) <$>
                              checkAll look suppress related components seen

/-- What is found at some components and below them. -/
def checkAll (look : Lookup) (suppress : Bool) (schema : Schema) :
    List FormComponent → List String → Except CatalogError Findings
  | [], seen => .ok ⟨[], seen⟩
  | c :: cs, seen => do
      let first ← check look suppress schema c seen
      let rest ← checkAll look suppress schema cs first.seen
      pure ⟨first.defects ++ rest.defects, rest.seen⟩

end

/-- The defects of the components below a root, checked against a schema. Only a blank
schema key and a failing look-up are errors. -/
def validate (look : Lookup) (suppress : Bool) (root : FormComponent) (schemaKey : String) :
    Except CatalogError (List FormDefect) :=
  if Text.isBlank schemaKey then .error .blankRootKey
  else do
    match ← look schemaKey with
    | none => pure [.rootNotFound schemaKey]
    | some schema =>
        let findings ← checkAll look suppress schema root.components []
        pure findings.defects

end FormComponent

/-- The form has no defect; otherwise all of them together are the error. -/
def FormConfiguration.validate (look : Lookup) (suppress : Bool) (form : FormConfiguration)
    (schemaKey : String) : Except CatalogError Unit := do
  let defects ← form.root.validate look suppress schemaKey
  if defects.isEmpty then pure () else throw (.invalidForm defects)

end SchemaCatalog
