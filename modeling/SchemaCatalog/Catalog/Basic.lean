import SchemaCatalog.Composition.Order
import SchemaCatalog.Pattern.Parser
import SchemaCatalog.Store

/-!
# The catalog

A catalog is a store behind the rules of saving: a key has the form that the pattern
asks for, no two properties share a name, every schema that another is composed of is
stored, and composition has no cycle. Calls to the store may fail; which of them do is
part of the catalog, and a failing call changes nothing.
-/

set_option autoImplicit false

namespace SchemaCatalog

/-- The keys for which each call to the store fails. -/
structure Outages where
  get : String → Bool
  ancestors : String → Bool
  save : String → Bool

/-- Every call to the store is answered. -/
def Outages.none : Outages := ⟨fun _ => false, fun _ => false, fun _ => false⟩

/-- The form that keys have to have: the pattern and the text it was written as. -/
structure KeyRule where
  written : String
  pattern : Pattern
deriving DecidableEq, Repr

namespace KeyRule

/-- The rule that a written pattern stands for. -/
def ofText? (written : String) : Except CatalogError KeyRule :=
  match WrittenPattern.ofText? written with
  | some p =>
      if p.isTooLarge then .error (.patternTooLarge written) else .ok ⟨written, p.meaning⟩
  | none => .error (.invalidPattern written)

/-- A letter, followed by up to 63 letters, digits and underscores. -/
def defaultText : String := "^[A-Za-z][A-Za-z0-9_]\x7b0,63\x7d$"

/-- The rule of `defaultText`. -/
def default : KeyRule :=
  let letters : List CharSet := [.range 65 90, .range 97 122]
  let word : List CharSet := letters ++ [.range 48 57, .single '_']
  ⟨defaultText, .inOrder [.textStart, .char (.anyOf letters),
    .repeated (.char (.anyOf word)) 0 (some 63), .textEnd]⟩

end KeyRule

/-- A store behind the rules of saving. -/
structure Catalog where
  keyRule : KeyRule
  store : Store
  outages : Outages

/-- How schemas are looked up: every check that only reads goes through such a function. -/
abbrev Lookup := String → Except CatalogError (Option Schema)

/-- The schema with a key, which has to be there. -/
def Lookup.require (look : Lookup) (key : String) : Except CatalogError Schema := do
  match ← look key with
  | some schema => pure schema
  | none => throw (.schemaNotFound key)

namespace Catalog

/-- A catalog without schemas. -/
def empty (rule : KeyRule) (outages : Outages) : Catalog := ⟨rule, .empty, outages⟩

/-- The look-up of a catalog. -/
def lookup (c : Catalog) : Lookup := fun key =>
  if c.outages.get key then .error (.storeFailure .get key) else .ok (c.store.get? key)

def require (c : Catalog) (key : String) : Except CatalogError Schema :=
  Lookup.require c.lookup key

/-- The stored schemas that are composed of a key, nearest first. -/
def ancestors (c : Catalog) (key : String) : Except CatalogError (List Schema) :=
  if c.outages.ancestors key then .error (.storeFailure .ancestors key)
  else .ok (c.store.ancestors key)

def validateKey (c : Catalog) (key : String) : Except CatalogError Unit :=
  if c.keyRule.pattern.isFoundIn key then .ok () else .error (.invalidKey key c.keyRule.written)

/-- The schema as it is stored and the catalog with it, without the rules of saving. -/
def storeSave (c : Catalog) (schema : Schema) : Except CatalogError (Schema × Catalog) :=
  if c.outages.save schema.key then .error (.storeFailure .save schema.key)
  else (c.store.save schema).map fun p => (p.1, { c with store := p.2 })

/-- Each child is another schema, is stored, and is not composed of the parent. -/
def checkChildren (c : Catalog) (parent : String) (ancestors : List String) :
    List String → Except CatalogError Unit
  | [] => .ok ()
  | child :: rest =>
      if child = parent then .error (.ownChild child)
      else do
        match ← c.lookup child with
        | none => .error (.childNotFound child)
        | some _ =>
            if child ∈ ancestors then .error (.parentAsChild child parent)
            else checkChildren c parent ancestors rest

/-- The composition of a schema keeps the rules. A schema without children is not looked
into further. -/
def checkComposition (c : Catalog) (schema : Schema) : Except CatalogError Unit :=
  if schema.children.isEmpty then .ok ()
  else do
    let ancestors ← c.ancestors schema.key
    c.checkChildren schema.key (ancestors.map Schema.key) schema.children

/-- The schema as it is stored and the catalog with it, if all rules are kept. -/
def save (c : Catalog) (schema : Schema) : Except CatalogError (Schema × Catalog) := do
  c.validateKey schema.key
  if !schema.duplicateNames.isEmpty then throw (.duplicateProperties schema.duplicateNames)
  c.checkComposition schema
  c.storeSave schema

/-- A definition that takes over the identifier and the version stored under its key. -/
def refresh (c : Catalog) (definition : Schema) : Except CatalogError Schema := do
  match ← c.lookup definition.key with
  | some stored => pure { definition with id := stored.id, version := stored.version }
  | none => pure definition

/-- Definitions saved one after the other, up to the first that cannot be; those before
it stay saved. -/
def saveAll (c : Catalog) : List Schema → Except CatalogError (List Schema) × Catalog
  | [] => (.ok [], c)
  | d :: rest =>
      match c.refresh d >>= c.save with
      | .error e => (.error e, c)
      | .ok (saved, c) =>
          let (result, c) := saveAll c rest
          (result.map (saved :: ·), c)

/-- Definitions saved in an order in which every schema comes after its children. -/
def load (c : Catalog) (definitions : List Schema) :
    Except CatalogError (List Schema) × Catalog :=
  match SaveOrder.arrange definitions with
  | .error e => (.error e, c)
  | .ok ordered => c.saveAll ordered

end Catalog

end SchemaCatalog
