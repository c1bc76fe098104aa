import SchemaCatalog.Proofs.Catalog.Mirroring

/-!
# References that resolve

By the rules of saving every schema that a stored one refers to is stored as well, so that no
operation that starts at a stored schema comes upon a missing one. Each of them has a branch for
that case; over a lawful look-up none of these branches is taken, whatever data the operation is
given (`Lookup.Lawful.build_resolves`, `typeAt_resolves`, `check_resolves`).

`Catalog.Intact` says so of all operations from one root, and `Catalog.intact_run` of all roots
after any calls by the rules.
-/

set_option autoImplicit false

namespace SchemaCatalog

open Relation

/-! ## Results without a missing schema -/

/-- A result that is not the failure to find a schema. -/
def Resolves {α : Type} (a : Except CatalogError α) : Prop :=
  ∀ key, a ≠ .error (.schemaNotFound key)

namespace Resolves

variable {α β : Type} {a : Except CatalogError α}

theorem ok (x : α) : Resolves (.ok x : Except CatalogError α) := by
  intro key heq
  cases heq

theorem mismatch (property expected : String) (v : Json) :
    Resolves (SchemaCatalog.mismatch property expected v : Except CatalogError α) := by
  intro key heq
  cases heq

theorem of_exists_ok (h : ∃ x, a = .ok x) : Resolves a := by
  obtain ⟨x, rfl⟩ := h
  exact ok x

theorem bind {f : α → Except CatalogError β} (h : Resolves a)
    (hnext : ∀ x, a = .ok x → Resolves (f x)) : Resolves (a >>= f) := by
  cases a with
  | error e =>
      intro key heq
      cases heq
      exact h key rfl
  | ok x => exact hnext x rfl

theorem map (f : α → β) (h : Resolves a) : Resolves (f <$> a) := by
  cases a with
  | error e =>
      intro key heq
      cases heq
      exact h key rfl
  | ok x => exact ok (f x)

/-- An operation on the members of a list fails with the error of one of them. -/
theorem mapM {f : α → Except CatalogError β} {as : List α} (h : ∀ a ∈ as, Resolves (f a)) :
    Resolves (as.mapM f) := by
  intro key heq
  obtain ⟨a, ha, hfailed⟩ := exists_of_mapM_eq_error heq
  exact h a ha key hfailed

end Resolves

/-! ## Data requirements -/

namespace Lookup.Lawful

variable {look : Lookup} {schema : Schema} {key : String}

theorem target_found_of_property (hlook : look.Lawful) (hschema : look.require key = .ok schema)
    {p : Property} (hp : p ∈ schema.properties) {target : String}
    (htarget : p.kind.target? = some target) : ∃ related, look.require target = .ok related :=
  hlook.targets_found key schema hschema (p.name, p.kind)
    (List.mem_append_left _ (List.mem_map.2 ⟨p, hp, rfl⟩)) target htarget

section Requirements

open DataRequirement

/-- A path leads on through declared properties only, and their targets are found. -/
theorem typeAt_resolves (hlook : look.Lawful) (path : String) {segments : List String} :
    ∀ {key schema}, look.require key = .ok schema →
      Resolves (typeAt look path schema segments) := by
  induction segments with
  | nil =>
      intro key schema _ key heq
      cases heq
  | cons segment rest ih =>
      intro key schema hschema
      cases hp : schema.declared? segment with
      | none =>
          -- a property that is not declared violates the requirement, but no schema is missing
          rw [typeAt, hp]
          intro key heq
          cases heq
      | some p =>
          cases htarget : p.kind.target? with
          | some target =>
              obtain ⟨related, hrelated⟩ :=
                hlook.target_found_of_property hschema (List.mem_of_find?_eq_some hp) htarget
              rw [typeAt_reference hp htarget, hrelated]
              cases rest with
              | nil => exact .ok _
              | cons next rest => exact ih hrelated
          | none =>
              -- a scalar ends the path, whatever comes behind it
              rw [typeAt, hp]
              dsimp only
              cases hkind : p.kind with
              | reference target =>
                  rw [hkind] at htarget
                  cases htarget
              | listOfReference target =>
                  rw [hkind] at htarget
                  cases htarget
              | listOfScalar type => exact .ok _
              | scalar type =>
                  cases rest with
                  | nil => exact .ok _
                  | cons next rest =>
                      intro key heq
                      cases heq

theorem requirement_resolves (hlook : look.Lawful) (hschema : look.require key = .ok schema)
    (r : DataRequirement) : Resolves (r.validate look key) := by
  rw [DataRequirement.validate, hschema]
  refine (hlook.typeAt_resolves r.path hschema).bind fun actual _ => ?_
  split
  · exact .ok _
  · intro key heq
    cases heq

end Requirements

/-! ## Entities -/

section Entities

open Entity

theorem scalar_resolves (property : String) (type : ScalarType) (v : Json) :
    Resolves (ScalarValue.coerce property type v) := by
  rw [ScalarValue.coerce]
  cases ScalarValue.ofJson? type v with
  | none => exact .mismatch property type.name v
  | some value => exact .ok value

theorem build_resolves_of_fields {fields : List (String × Json)}
    (hfields : ∀ name v, (name, v) ∈ fields → ∀ p ∈ schema.properties,
      Resolves (coerce look p.name p.kind v)) : Resolves (build look schema fields) := by
  rw [build_eq_assemble]
  refine Resolves.bind (Resolves.mapM fun p hp => ?_) fun _ _ => .ok _
  have hread : Resolves (readField look p (Keyed.get? fields p.name)) := by
    cases hget : Keyed.get? fields p.name with
    | none => exact .ok _
    | some v =>
        rw [readField]
        split
        · exact .ok _
        · exact hfields p.name v (Keyed.mem_of_get?_eq_some hget) p hp
  exact hread.bind fun _ _ => .ok _

/-- A value for a property of a found schema is read if the entities in it are. -/
theorem coerce_resolves_of_nested (hlook : look.Lawful) (hschema : look.require key = .ok schema)
    {p : Property} (hp : p ∈ schema.properties) {v : Json}
    (hnested : ∀ item, item = v ∨ item ∈ elements v → ∀ property key schema,
      look.require key = .ok schema → Resolves (nested look property schema item)) :
    Resolves (coerce look p.name p.kind v) := by
  have htarget : ∀ target, p.kind.target? = some target →
      ∃ related, look.require target = .ok related :=
    fun target => hlook.target_found_of_property hschema hp
  cases hkind : p.kind with
  | scalar type =>
      rw [coerce]
      exact (scalar_resolves p.name type v).map _
  | listOfScalar type =>
      rw [coerce]
      exact (Resolves.mapM fun item _ => scalar_resolves p.name type item).map _
  | reference target =>
      obtain ⟨related, hrelated⟩ := htarget target (by rw [hkind]; rfl)
      rw [coerce_reference, hrelated]
      exact (hnested v (Or.inl rfl) p.name target related hrelated).map _
  | listOfReference target =>
      obtain ⟨related, hrelated⟩ := htarget target (by rw [hkind]; rfl)
      rw [coerce_listOfReference, hrelated]
      refine Resolves.map _ (Resolves.mapM fun item hitem => ?_)
      exact hnested item (Or.inr hitem) p.name target related hrelated

theorem nested_resolves (hlook : look.Lawful) (v : Json) :
    ∀ item, item = v ∨ item ∈ elements v → ∀ property key schema,
      look.require key = .ok schema → Resolves (nested look property schema item) := by
  refine elementsInduction ?_ ?_ v
  · intro v hobject property key schema _
    rw [nested_of_ne_object hobject]
    exact .mismatch property (expected schema) v
  · intro fields ih property key schema hschema
    exact build_resolves_of_fields fun name v hv p hp =>
      hlook.coerce_resolves_of_nested hschema hp (ih name v hv)

/-- An entity of a found schema is built without a missing schema. -/
theorem build_resolves (hlook : look.Lawful) (hschema : look.require key = .ok schema)
    (payload : List (String × Json)) : Resolves (build look schema payload) :=
  build_resolves_of_fields fun _ v _ _ hp =>
    hlook.coerce_resolves_of_nested hschema hp (hlook.nested_resolves v)

theorem buildFor_resolves (hlook : look.Lawful) (hschema : look.require key = .ok schema)
    (payload : List (String × Json)) : Resolves (buildFor look key payload) := by
  rw [buildFor, hschema]
  exact hlook.build_resolves hschema payload

theorem update_resolves (hlook : look.Lawful) {e : Entity}
    (hschema : look.require e.schemaKey = .ok schema) (changes : List (String × Json)) :
    Resolves (e.update look changes) := by
  obtain ⟨merged, hmerged⟩ := Payload.exists_merge_eq_ok hlook hschema e.toFields changes
  rw [update, hschema]
  dsimp only [bind, Except.bind]
  rw [hmerged]
  exact hlook.build_resolves hschema merged

end Entities

end Lookup.Lawful

/-! ## Forms -/

theorem Text.head?_append {first : String} {c : Char} (h : first.toList.head? = some c)
    (rest rest' : String) : (first ++ rest ++ rest').toList.head? = some c := by
  rw [String.append_assoc, String.toList_append, List.head?_append, h]
  rfl

namespace FormDefect

/-- Whether a defect is that a schema is missing. -/
def isMissing : FormDefect → Bool
  | rootNotFound _ | targetNotFound _ _ => true
  | missingKey | duplicateKey _ | notInSchema _ _ | notAParent _ => false

/-- No other defect is told in the words for a missing schema. -/
theorem errorName_ne_schemaNotFound {d : FormDefect} (h : d.isMissing = false) (key : String) :
    d.report.errorName ≠ schemaNotFound key := by
  intro heq
  -- the texts differ in their first letters already
  have hfirst : d.message.toList.head? = some 'S' := by
    rw [show d.message = schemaNotFound key from heq]
    exact Text.head?_append (by decide) key _
  cases d with
  | rootNotFound _ => cases h
  | targetNotFound _ _ => cases h
  | missingKey => exact absurd hfirst (by decide)
  | duplicateKey key' =>
      exact absurd hfirst (by decide : ¬ (message (.duplicateKey "")).toList.head? = some 'S')
  | notAParent key' =>
      exact absurd hfirst (by decide : ¬ (message (.notAParent "")).toList.head? = some 'S')
  | notInSchema key' schemaKey =>
      have hother : (message (.notInSchema key' schemaKey)).toList.head? = some 'C' :=
        Text.head?_append (by decide) schemaKey _
      cases hother.symm.trans hfirst

end FormDefect

namespace FormComponent

variable {look : Lookup} {schema : Schema} {c : FormComponent} {seen seen' : List String}

/-- A component is told to miss a schema only where nothing was found for the target. -/
theorem target_of_enter {d : FormDefect}
    (h : enter look schema c seen = .ok (.settled (some d) seen')) (hd : d.isMissing = true) :
    ∃ target, look target = .ok none := by
  rw [enter] at h
  -- up to the look-up every defect that is told is another one
  cases hinput : c.input with
  | false =>
      rw [hinput] at h
      cases h
  | true =>
      simp only [hinput, Bool.not_true, Bool.false_eq_true, if_false] at h
      cases hkey : usableKey? c.key with
      | none =>
          rw [hkey] at h
          cases h
          cases hd
      | some key =>
          simp only [hkey] at h
          split at h
          · cases h
            cases hd
          split at h
          · cases h
            cases hd
          split at h
          · cases h
          split at h
          · cases h
            cases hd
          · obtain ⟨found, hfound, h⟩ := bind_eq_ok_iff.1 h
            cases found with
            | none => exact ⟨_, hfound⟩
            | some related => cases h

/-- At a component in the scope of a found schema no schema is missing, and what is in scope below
it is found as well. -/
theorem enter_resolves (hlook : look.Lawful) {key : String}
    (hschema : look.require key = .ok schema) : ∃ entry, enter look schema c seen = .ok entry ∧
      (∀ d seen', entry = .settled (some d) seen' → d.isMissing = false) ∧
      ∀ scope seen', entry = .opened scope seen' → ∃ key, look.require key = .ok scope := by
  rcases enter_cases schema c seen with
    ⟨entry, hentry, hsame⟩ | ⟨key', kind, target, hkind, htarget, hentry⟩
  · refine ⟨entry, hentry look, fun d seen' hsettled => ?_, fun scope seen' hopened => ?_⟩
    · -- the same defect is found over a look-up that never tells that a schema is missing
      have hblind := hentry fun _ => .error .blankRootKey
      rw [hsettled] at hblind
      rw [← Bool.not_eq_true]
      intro hd
      obtain ⟨target, htarget⟩ := target_of_enter hblind hd
      cases htarget
    · -- a component that takes no input leaves the schema in scope
      rw [hsame scope seen' hopened]
      exact ⟨key, hschema⟩
  · obtain ⟨related, hrelated⟩ := hlook.target_found hschema hkind htarget
    obtain ⟨found, hfound, hsome⟩ := bind_eq_ok_iff.1 hrelated
    cases found with
    | none => cases hsome
    | some found =>
        cases hsome
        refine ⟨.opened related (key' :: seen), ?_, nofun, fun scope seen' hopened => ?_⟩
        · rw [hentry, hfound]
          rfl
        · cases hopened
          exact ⟨target, hrelated⟩

/-- What is found in a part of a form, no defect being that a schema is missing. -/
def FindsNoneMissing (found : Except CatalogError Findings) : Prop :=
  ∃ f, found = .ok f ∧ ∀ d ∈ f.defects, d.isMissing = false

theorem checkAll_resolves (hlook : look.Lawful) (suppress : Bool)
    (components : List FormComponent) : ∀ key schema seen, look.require key = .ok schema →
      FindsNoneMissing (checkAll look suppress schema components seen) := by
  induction components using forestInduction with
  | nil => exact fun _ _ seen _ => ⟨⟨[], seen⟩, rfl, List.forall_mem_nil _⟩
  | cons c rest ihbelow ihrest =>
      intro key schema seen hschema
      have hfirst : FindsNoneMissing (check look suppress schema c seen) := by
        obtain ⟨entry, hentry, hsettled, hopened⟩ := enter_resolves hlook hschema
        rw [check_eq_enter, hentry]
        cases entry with
        | settled defect? seen' =>
            refine ⟨⟨defect?.toList, seen'⟩, rfl, fun d hd => hsettled d seen' ?_⟩
            rw [Option.mem_toList.1 hd]
        | opened scope seen' =>
            obtain ⟨key', hscope⟩ := hopened scope seen' rfl
            obtain ⟨f, hf, hfine⟩ := ihbelow key' scope seen' hscope
            refine ⟨f.silenced (suppress && c.isHiddenList), ?_, fun d hd => hfine d ?_⟩
            · dsimp only [bind, Except.bind]
              rw [hf]
              rfl
            · rw [Findings.silenced] at hd
              split at hd
              · cases hd
              · exact hd
      obtain ⟨first, hfirst, hfine₁⟩ := hfirst
      obtain ⟨later, hlater, hfine₂⟩ := ihrest key schema first.seen hschema
      refine ⟨⟨first.defects ++ later.defects, later.seen⟩, ?_, fun d hd => ?_⟩
      · rw [checkAll, hfirst]
        dsimp only [bind, Except.bind]
        rw [hlater]
        rfl
      · exact (List.mem_append.1 hd).elim (hfine₁ d) (hfine₂ d)

/-- A form is checked against a found schema to the end, and no defect is that one is missing. -/
theorem validate_resolves (hlook : look.Lawful) {key : String} (hkey : Text.isBlank key = false)
    (hschema : look.require key = .ok schema) (suppress : Bool) (form : FormComponent) :
    ∃ defects, form.validate look suppress key = .ok defects ∧
      ∀ d ∈ defects, d.isMissing = false := by
  obtain ⟨f, hf, hfine⟩ := checkAll_resolves hlook suppress form.components key schema [] hschema
  obtain ⟨found, hfound, hsome⟩ := bind_eq_ok_iff.1 hschema
  cases found with
  | none => cases hsome
  | some found =>
      cases hsome
      refine ⟨f.defects, ?_, hfine⟩
      rw [validate, if_neg (Bool.eq_false_iff.1 hkey), hfound]
      dsimp only [bind, Except.bind]
      rw [hf]
      rfl

end FormComponent

/-! ## Related schemas -/

namespace Catalog

/-- Over a lawful store nothing that a stored root leads to is missing. -/
theorem not_missing_of_lawful {s : Store} {rule : KeyRule} (hlawful : s.Lawful rule) {root : String}
    {schema : Schema} (hroot : s.get? root = some schema) (key : String) :
    ¬ s.Missing root key := by
  rintro ⟨hnone, rfl | ⟨parent, -, hchild⟩⟩
  · cases hroot.symm.trans hnone
  · obtain ⟨stored, hstored⟩ := hlawful.children_stored parent key hchild
    cases hstored.symm.trans hnone

/-- No operation from a root with a schema comes upon a missing schema. -/
structure Intact (c : Catalog) (root : String) (schema : Schema) : Prop where
  related : ∃ groups, c.related root = .ok groups
  forms : Text.isBlank root = false → ∀ (form : FormComponent) suppress,
    ∃ defects, form.validate c.lookup suppress root = .ok defects ∧
      ∀ d ∈ defects, ∀ key, d.report.errorName ≠ FormDefect.schemaNotFound key
  requirements : ∀ r : DataRequirement, Resolves (r.validate c.lookup root)
  entities : ∀ payload, Resolves (Entity.buildFor c.lookup root payload)
  merges : ∀ base changes, Resolves (Payload.merge c.lookup schema base changes)
  updates : ∀ e : Entity, e.schemaKey = root → ∀ changes, Resolves (e.update c.lookup changes)

/-- After any calls by the rules, whichever of them fail, no operation from a stored root comes
upon a missing schema. -/
theorem intact_run (rule : KeyRule) {calls : List Call}
    (hcalls : ∀ call ∈ calls, call.checked = true) :
    let c := (empty rule .none).run calls
    ∀ root schema, c.store.get? root = some schema → c.Intact root schema := by
  intro c root schema hroot
  obtain ⟨-, hanswers, hindexed, hlawful⟩ := lawful_indexed_run rule hcalls
  have hlook := lawful_lookup hanswers hlawful
  have hschema : Lookup.require c.lookup root = .ok schema := (require_eq_ok_iff hanswers).2 hroot
  refine ⟨?_, fun hkey form suppress => ?_, hlook.requirement_resolves hschema,
    hlook.buildFor_resolves hschema, fun base changes => ?_, ?_⟩
  · -- the search for related schemas fails only at a missing one
    rcases related_ends hanswers hindexed root with ⟨t, hrelated, -⟩ | ⟨key, hmissing, -⟩
    · exact ⟨t.groups, hrelated⟩
    · exact absurd hmissing (not_missing_of_lawful hlawful hroot key)
  · obtain ⟨defects, hdefects, hfine⟩ := FormComponent.validate_resolves hlook hkey hschema suppress form
    exact ⟨defects, hdefects, fun d hd => FormDefect.errorName_ne_schemaNotFound (hfine d hd)⟩
  · exact .of_exists_ok (Payload.exists_merge_eq_ok hlook hschema base changes)
  · rintro e rfl changes
    exact hlook.update_resolves hschema changes

/-- A save that would leave the person with a missing home is refused, and what was stored before
stays intact. -/
theorem intact_run_refused_target :
    let calls : List Call :=
      [.save ⟨none, "Address", "", none, [], [], 0⟩,
        .save ⟨none, "Person", "", none, [⟨"home", .reference "Address", []⟩], [], 0⟩,
        .save ⟨none, "Person", "", none, [⟨"home", .reference "Ghost", []⟩], [], 1⟩]
    let c := (empty .default .none).run calls
    (∀ call ∈ calls, call.checked = true) ∧
      ∃ person, c.store.get? "Person" = some person ∧ person.children = ["Address"] ∧
        c.Intact "Person" person := by
  intro calls c
  have hcalls : ∀ call ∈ calls, call.checked = true := by
    simp [calls, Call.checked]
  have hstored : (c.store.get? "Person").map Schema.children = some ["Address"] := by
    decide +kernel
  obtain ⟨person, hperson, hchildren⟩ := Option.map_eq_some_iff.1 hstored
  exact ⟨hcalls, person, hperson, hchildren, intact_run .default hcalls "Person" person hperson⟩

end Catalog

end SchemaCatalog
