import SchemaCatalog.Proofs.Catalog.Relating
import SchemaCatalog.Proofs.Form.Checking
import SchemaCatalog.Proofs.Requirement.Describing

/-!
# The types of requirement paths

The type of a path is read off the stored schemas by recursion on its segments
(`Store.typeFrom?`): a reference leads on to its target, whose key is the type when no segment
is left, and a list of scalars has its type whatever is left. A path without a type breaks at
one segment or at a schema that is not stored, and there is one error for it
(`Store.BreaksWith`), whatever type is asked for.

A requirement compares its type with that of its path and fails in no other way
(`DataRequirement.validate_of_typeFrom?`, `DataRequirement.validate_of_breaksWith`); together
with what a set of requirements makes of that, this is `Catalog.requirements_typed`.
-/

set_option autoImplicit false

namespace SchemaCatalog

namespace Store

/-- The type of a path from the schema with a key, if it has one. -/
def typeFrom? (s : Store) (key : String) : List String → Option String
  | [] => some key
  | segment :: rest => do
      let schema ← s.get? key
      let property ← schema.declared? segment
      match property.kind with
      | .scalar type => if rest = [] then some type.name else none
      | .listOfScalar type => some type.name
      | .reference target | .listOfReference target =>
          if (s.get? target).isSome then typeFrom? s target rest else none

/-- A path from the schema with a key breaks with an error: a schema on the way is not stored, a
segment is not declared there, or segments are left behind a scalar. `path` is the whole path. -/
inductive BreaksWith (s : Store) (path : String) : String → List String → CatalogError → Prop
  | missing {key : String} (hkey : s.get? key = none) (segments : List String) :
      BreaksWith s path key segments (.schemaNotFound key)
  /-- Computed properties do not count. -/
  | undeclared {key segment : String} {schema : Schema} (hkey : s.get? key = some schema)
      (hsegment : ∀ p ∈ schema.properties, p.name ≠ segment) (rest : List String) :
      BreaksWith s path key (segment :: rest) (.propertyNotFound schema.key segment)
  | pastScalar {key segment : String} {schema : Schema} {p : Property} {type : ScalarType}
      {rest : List String} (hkey : s.get? key = some schema)
      (hp : schema.declared? segment = some p) (hkind : p.kind = .scalar type)
      (hrest : rest ≠ []) : BreaksWith s path key (segment :: rest) (.pathPastScalar path segment)
  | beyond {key segment target : String} {schema : Schema} {p : Property} {rest : List String}
      {e : CatalogError} (hkey : s.get? key = some schema)
      (hp : schema.declared? segment = some p) (htarget : p.kind.target? = some target)
      (hbreaks : BreaksWith s path target rest e) : BreaksWith s path key (segment :: rest) e

section Paths

variable {s : Store} {path key segment : String} {schema : Schema} {p : Property}

theorem declared?_eq_none_iff : schema.declared? segment = none ↔
    ∀ p ∈ schema.properties, p.name ≠ segment := by
  rw [Schema.declared?, List.find?_eq_none]
  simp

theorem typeFrom?_cons (hkey : s.get? key = some schema) (hp : schema.declared? segment = some p)
    (rest : List String) :
    s.typeFrom? key (segment :: rest) = match p.kind with
      | .scalar type => if rest = [] then some type.name else none
      | .listOfScalar type => some type.name
      | .reference target | .listOfReference target =>
          if (s.get? target).isSome then s.typeFrom? target rest else none := by
  rw [typeFrom?, hkey]
  simp only [hp, Option.bind_eq_bind, Option.bind_some]

theorem typeFrom?_reference (hkey : s.get? key = some schema)
    (hp : schema.declared? segment = some p) {target : String}
    (htarget : p.kind.target? = some target) (rest : List String) :
    s.typeFrom? key (segment :: rest) =
      if (s.get? target).isSome then s.typeFrom? target rest else none := by
  rw [typeFrom?_cons hkey hp]
  generalize p.kind = kind at htarget
  cases kind with
  | scalar type => cases htarget
  | listOfScalar type => cases htarget
  | reference key' =>
      cases htarget
      rfl
  | listOfReference key' =>
      cases htarget
      rfl

/-- A path that has no type, or starts from a schema that is not stored, breaks with an error. -/
theorem exists_breaksWith (path : String) {segments : List String} :
    ∀ {key}, s.get? key = none ∨ s.typeFrom? key segments = none →
      ∃ e, BreaksWith s path key segments e := by
  induction segments with
  | nil =>
      rintro key (hkey | htype)
      · exact ⟨_, .missing hkey []⟩
      · cases htype
  | cons segment rest ih =>
      intro key h
      cases hkey : s.get? key with
      | none => exact ⟨_, .missing hkey _⟩
      | some schema =>
          have htype : s.typeFrom? key (segment :: rest) = none := by
            rcases h with hnone | htype
            · rw [hkey] at hnone
              cases hnone
            · exact htype
          cases hp : schema.declared? segment with
          | none => exact ⟨_, .undeclared hkey (declared?_eq_none_iff.1 hp) rest⟩
          | some p =>
              cases htarget : p.kind.target? with
              | some target =>
                  rw [typeFrom?_reference hkey hp htarget] at htype
                  have hrest : s.get? target = none ∨ s.typeFrom? target rest = none := by
                    cases htargetKey : s.get? target with
                    | none => exact Or.inl rfl
                    | some related =>
                        rw [htargetKey] at htype
                        exact Or.inr htype
                  obtain ⟨e, he⟩ := ih hrest
                  exact ⟨e, .beyond hkey hp htarget he⟩
              | none =>
                  rw [typeFrom?_cons hkey hp] at htype
                  cases hkind : p.kind with
                  | scalar type =>
                      rw [hkind] at htype
                      refine ⟨_, .pastScalar hkey hp hkind ?_⟩
                      rintro rfl
                      cases htype
                  | listOfScalar type =>
                      rw [hkind] at htype
                      cases htype
                  | reference target =>
                      rw [hkind] at htarget
                      cases htarget
                  | listOfReference target =>
                      rw [hkind] at htarget
                      cases htarget

end Paths

end Store

namespace DataRequirement

open Store (BreaksWith)

variable {s : Store} {path key : String}

theorem require_eq_ok {schema : Schema} (hkey : s.get? key = some schema) :
    s.lookup.require key = .ok schema :=
  (Catalog.require_eq_ok_iff (c := ⟨.default, s, .none⟩) rfl).2 hkey

theorem require_eq_error (hkey : s.get? key = none) :
    s.lookup.require key = .error (.schemaNotFound key) :=
  (Catalog.require_eq_error_iff (c := ⟨.default, s, .none⟩) rfl).2 ⟨hkey, rfl⟩

/-- The type of a path is found at its end. -/
theorem typeAt_of_typeFrom? (path : String) {segments : List String} (hsegments : segments ≠ [])
    {name : String} : ∀ {key schema}, s.get? key = some schema →
      s.typeFrom? key segments = some name → typeAt s.lookup path schema segments = .ok name := by
  induction segments with
  | nil => exact absurd rfl hsegments
  | cons segment rest ih =>
      intro key schema hkey htype
      cases hp : schema.declared? segment with
      | none =>
          rw [Store.typeFrom?, hkey] at htype
          simp only [hp, Option.bind_eq_bind, Option.bind_some, Option.bind_none] at htype
          cases htype
      | some p =>
          cases htarget : p.kind.target? with
          | some target =>
              rw [Store.typeFrom?_reference hkey hp htarget] at htype
              rw [typeAt_reference hp htarget]
              cases hrelated : s.get? target with
              | none =>
                  rw [hrelated] at htype
                  cases htype
              | some related =>
                  rw [hrelated] at htype
                  rw [require_eq_ok hrelated]
                  cases rest with
                  | nil =>
                      cases htype
                      rfl
                  | cons next rest => exact ih (List.cons_ne_nil next rest) hrelated htype
          | none =>
              rw [Store.typeFrom?_cons hkey hp] at htype
              rw [typeAt, hp]
              dsimp only
              generalize p.kind = kind at htype htarget
              cases kind with
              | scalar type =>
                  cases rest with
                  | nil =>
                      cases htype
                      rfl
                  | cons next rest => cases htype
              | listOfScalar type =>
                  cases htype
                  rfl
              | reference target => cases htarget
              | listOfReference target => cases htarget

/-- The type found at the end of a path from the schema with a key. -/
def walk (look : Lookup) (path key : String) (segments : List String) :
    Except CatalogError String := do
  let schema ← look.require key
  typeAt look path schema segments

theorem validate_eq_walk (look : Lookup) (root : String) (r : DataRequirement) :
    r.validate look root = (do
      let actual ← walk look r.path root (Text.segments r.path)
      if Text.sameLetters actual r.type then pure ()
      else throw (.wrongType r.path actual r.type)) := by
  rw [validate, walk]
  cases look.require root with
  | error e => rfl
  | ok schema => rfl

theorem walk_eq_typeAt {schema : Schema} (hkey : s.get? key = some schema)
    (segments : List String) :
    walk s.lookup path key segments = typeAt s.lookup path schema segments := by
  rw [walk, require_eq_ok hkey]
  rfl

theorem walk_eq_error (hkey : s.get? key = none) (segments : List String) :
    walk s.lookup path key segments = .error (.schemaNotFound key) := by
  rw [walk, require_eq_error hkey]
  rfl

/-- A path that breaks with an error ends the walk with that error. -/
theorem walk_of_breaksWith {segments : List String} {e : CatalogError}
    (h : BreaksWith s path key segments e) : walk s.lookup path key segments = .error e := by
  induction h with
  | missing hkey segments => exact walk_eq_error hkey segments
  | undeclared hkey hsegment rest =>
      rw [walk_eq_typeAt hkey, typeAt, Store.declared?_eq_none_iff.2 hsegment]
  | @pastScalar key segment schema p type rest hkey hp hkind hrest =>
      rw [walk_eq_typeAt hkey, typeAt, hp]
      dsimp only
      rw [hkind]
      cases rest with
      | nil => exact absurd rfl hrest
      | cons next rest => rfl
  | @beyond key segment target schema p rest e hkey hp htarget hbreaks ih =>
      rw [walk_eq_typeAt hkey, typeAt_reference hp htarget]
      cases rest with
      | nil =>
          -- at the end of the path only the schema itself can be missing
          cases hbreaks with
          | missing htargetKey =>
              rw [require_eq_error htargetKey]
              rfl
      | cons next rest => exact ih

/-- A requirement whose path has a type asks for that type. -/
theorem validate_of_typeFrom? {r : DataRequirement} {schema : Schema} {name : String}
    (hkey : s.get? key = some schema)
    (htype : s.typeFrom? key (Text.segments r.path) = some name) :
    r.validate s.lookup key =
      if Text.sameLetters name r.type then .ok () else .error (.wrongType r.path name r.type) := by
  rw [validate_eq_walk, walk_eq_typeAt hkey,
    typeAt_of_typeFrom? r.path (Text.segments_ne_nil r.path) hkey htype]
  rfl

/-- A requirement whose path breaks has the error of the break. -/
theorem validate_of_breaksWith {r : DataRequirement} {e : CatalogError}
    (h : BreaksWith s r.path key (Text.segments r.path) e) :
    r.validate s.lookup key = .error e := by
  rw [validate_eq_walk, walk_of_breaksWith h]
  rfl

/-- The path of a requirement has a type from a stored root, or it breaks. -/
theorem typed_or_breaks (s : Store) (root : String) (r : DataRequirement) :
    (∃ schema name, s.get? root = some schema ∧
      s.typeFrom? root (Text.segments r.path) = some name) ∨
    ((s.get? root = none ∨ s.typeFrom? root (Text.segments r.path) = none) ∧
      ∃ e, BreaksWith s r.path root (Text.segments r.path) e) := by
  by_cases hbroken : s.get? root = none ∨ s.typeFrom? root (Text.segments r.path) = none
  · exact Or.inr ⟨hbroken, Store.exists_breaksWith r.path hbroken⟩
  · obtain ⟨hroot, htype⟩ := not_or.1 hbroken
    obtain ⟨schema, hschema⟩ := Option.ne_none_iff_exists'.1 hroot
    obtain ⟨name, hname⟩ := Option.ne_none_iff_exists'.1 htype
    exact Or.inl ⟨schema, name, hschema, hname⟩

/-- A requirement holds exactly when its root is stored and its path has the type asked for. -/
theorem validate_eq_ok_iff {root : String} {r : DataRequirement} :
    r.validate s.lookup root = .ok () ↔
      (∃ schema, s.get? root = some schema) ∧
        ∃ name, s.typeFrom? root (Text.segments r.path) = some name ∧
          Text.sameLetters name r.type = true := by
  rcases typed_or_breaks s root r with ⟨schema, name, hschema, hname⟩ | ⟨hbroken, e, he⟩
  · rw [validate_of_typeFrom? hschema hname, hschema, hname]
    constructor
    · intro h
      split at h
      · rename_i hsame
        exact ⟨⟨schema, rfl⟩, name, rfl, hsame⟩
      · cases h
    · rintro ⟨-, name', heq, hsame⟩
      cases heq
      exact if_pos hsame
  · rw [validate_of_breaksWith he]
    refine iff_of_false nofun ?_
    rintro ⟨⟨schema, hschema⟩, name, hname, -⟩
    rw [hschema, hname] at hbroken
    rcases hbroken with h | h
    · cases h
    · cases h

theorem ne_emptyPath_of_breaksWith {segments : List String} {e : CatalogError}
    (h : BreaksWith s path key segments e) (other : String) : e ≠ .emptyPath other := by
  induction h with
  | missing _ _ => exact nofun
  | undeclared _ _ _ => exact nofun
  | pastScalar _ _ _ _ => exact nofun
  | beyond _ _ _ _ ih => exact ih

/-- Every text has a segment, so no path is empty. -/
theorem validate_ne_emptyPath (root : String) (r : DataRequirement) (other : String) :
    r.validate s.lookup root ≠ .error (.emptyPath other) := by
  rcases typed_or_breaks s root r with ⟨schema, name, hschema, hname⟩ | ⟨-, e, he⟩
  · rw [validate_of_typeFrom? hschema hname]
    split
    · exact nofun
    · exact nofun
  · rw [validate_of_breaksWith he]
    intro heq
    exact ne_emptyPath_of_breaksWith he other (Except.error.inj heq)

theorem appliesTo_eq_true_iff {r : DataRequirement} {userType : String} :
    r.appliesTo userType = true ↔ r.userTypes = [] ∨ userType ∈ r.userTypes := by
  simp [appliesTo]

end DataRequirement

namespace Catalog

open DataRequirement (validate)
open Store (BreaksWith)

/-- In any store, a requirement holds exactly when its root is stored and its path has the type
that is asked for, up to the case of letters. A path from a root that is not stored and a path
without a type have one error, whatever type is asked for; no error says that a path is empty. A
set of requirements holds exactly when those that apply to the user type do, and otherwise has
the error of the first of these that does not. -/
theorem requirements_typed (rule : KeyRule) (s : Store) (root : String) :
    let look := (Catalog.mk rule s .none).lookup
    (∀ r : DataRequirement, r.validate look root = .ok () ↔
      (∃ schema, s.get? root = some schema) ∧
        ∃ name, s.typeFrom? root (Text.segments r.path) = some name ∧
          Text.sameLetters name r.type = true) ∧
    (∀ path, s.get? root = none ∨ s.typeFrom? root (Text.segments path) = none →
      ∃ e, BreaksWith s path root (Text.segments path) e ∧
        ∀ type userTypes, validate look root ⟨path, type, userTypes⟩ = .error e) ∧
    (∀ (r : DataRequirement) (path : String), r.validate look root ≠ .error (.emptyPath path)) ∧
    ∀ (set : DataRequirementSet) (userType : String),
      let Applies (r : DataRequirement) : Prop := r.userTypes = [] ∨ userType ∈ r.userTypes
      (set.validate look root userType = .ok () ↔
        ∀ r ∈ set.requirements, Applies r → r.validate look root = .ok ()) ∧
      ∀ e, set.validate look root userType = .error e ↔
        ∃ before r behind, set.requirements = before ++ r :: behind ∧ Applies r ∧
          r.validate look root = .error e ∧
          ∀ r' ∈ before, Applies r' → r'.validate look root = .ok () := by
  intro look
  rw [show look = s.lookup from lookup_of_answers rule s]
  refine ⟨fun r => DataRequirement.validate_eq_ok_iff, fun path hbroken => ?_,
    DataRequirement.validate_ne_emptyPath root, fun set userType => ⟨?_, fun e => ?_⟩⟩
  · obtain ⟨e, he⟩ := Store.exists_breaksWith path hbroken
    exact ⟨e, he, fun _ _ => DataRequirement.validate_of_breaksWith he⟩
  · rw [DataRequirementSet.validate, DataRequirementSet.applicable, forM_filter_eq_ok_iff]
    simp only [DataRequirement.appliesTo_eq_true_iff]
  · rw [DataRequirementSet.validate, DataRequirementSet.applicable, forM_filter_eq_error_iff]
    simp only [DataRequirement.appliesTo_eq_true_iff]

/-- Behind the dot there is one more segment, but the schema that it is looked for in is not
stored; whatever type is asked for, this is the error. -/
theorem requirements_typed_dangling :
    let person : Schema := ⟨none, "Person", "", none, [⟨"home", .reference "Address", []⟩], [], 0⟩
    let s := Store.empty.put person
    let look := (Catalog.mk .default s .none).lookup
    s.typeFrom? "Person" (Text.segments "home.") = none ∧
      ∀ type userTypes, validate look "Person" ⟨"home.", type, userTypes⟩ =
        .error (.schemaNotFound "Address") := by
  intro person s look
  have hbroken : s.typeFrom? "Person" (Text.segments "home.") = none := by
    subst s person
    rfl
  have hone : validate look "Person" ⟨"home.", "", []⟩ = .error (.schemaNotFound "Address") := by
    subst look s person
    rfl
  obtain ⟨e, -, he⟩ := (requirements_typed .default s "Person").2.1 "home." (Or.inr hbroken)
  cases (he "" []).symm.trans hone
  exact ⟨hbroken, he⟩

end Catalog

end SchemaCatalog
