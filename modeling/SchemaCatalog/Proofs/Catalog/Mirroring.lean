import SchemaCatalog.Proofs.Catalog.Relating
import SchemaCatalog.Proofs.Entity.Updating
import SchemaCatalog.Proofs.Form.Scope
import SchemaCatalog.Proofs.Linker.Verdict
import SchemaCatalog.Proofs.Requirement.Describing

/-!
# Look-ups that mirror each other

A look-up mirrors another one on a set of keys when it gives the same answers there, or fails in
a way that is named, and when the schemas found there refer to keys of the set only
(`Mirrors`). Every operation that starts in such a set stays in it, whatever data it is given,
so that its result is the same too, or the failure of a look-up (`SameUnless`).

This is shown for each operation by following its recursion; two runs go the same way as long
as no look-up fails. All of them together are `Catalog.AlikeFrom` (`Mirrors.alikeFrom`).
-/

set_option autoImplicit false

namespace SchemaCatalog

/-! ## Results that are the same unless something fails -/

/-- The second result is the first one, or an error that stands for a failure. -/
def SameUnless {α : Type} (fails : CatalogError → Prop) (a b : Except CatalogError α) : Prop :=
  b = a ∨ ∃ e, fails e ∧ b = .error e

namespace SameUnless

variable {fails : CatalogError → Prop} {α β : Type} {a b : Except CatalogError α}

theorem refl (a : Except CatalogError α) : SameUnless fails a a := Or.inl rfl

theorem eq_of_never (h : SameUnless (fun _ => False) a b) : a = b := by
  rcases h with rfl | ⟨e, hfails, -⟩
  · rfl
  · exact hfails.elim

theorem bind {f g : α → Except CatalogError β} (h : SameUnless fails a b)
    (hnext : ∀ x, a = .ok x → SameUnless fails (f x) (g x)) :
    SameUnless fails (a >>= f) (b >>= g) := by
  rcases h with rfl | ⟨e, hfails, rfl⟩
  · cases b with
    | error e => exact refl _
    | ok x => exact hnext x rfl
  · -- the second run ends here, whatever the first one goes on with
    exact Or.inr ⟨e, hfails, rfl⟩

theorem map (f : α → β) (h : SameUnless fails a b) : SameUnless fails (f <$> a) (f <$> b) := by
  rcases h with rfl | ⟨e, hfails, rfl⟩
  · exact refl _
  · exact Or.inr ⟨e, hfails, rfl⟩

theorem mapM {f g : α → Except CatalogError β} {as : List α}
    (h : ∀ a ∈ as, SameUnless fails (f a) (g a)) : SameUnless fails (as.mapM f) (as.mapM g) := by
  induction as with
  | nil => exact refl _
  | cons a rest ih =>
      obtain ⟨hfirst, hrest⟩ := List.forall_mem_cons.1 h
      rw [List.mapM_cons, List.mapM_cons]
      exact hfirst.bind fun b _ => (ih hrest).bind fun bs _ => refl _

theorem forM {f g : α → Except CatalogError PUnit} {as : List α}
    (h : ∀ a ∈ as, SameUnless fails (f a) (g a)) : SameUnless fails (as.forM f) (as.forM g) := by
  induction as with
  | nil => exact refl _
  | cons a rest ih =>
      obtain ⟨hfirst, hrest⟩ := List.forall_mem_cons.1 h
      exact hfirst.bind fun _ _ => ih hrest

theorem foldlM {f g : β → α → Except CatalogError β} {as : List α}
    (h : ∀ a ∈ as, ∀ b, SameUnless fails (f b a) (g b a)) (b : β) :
    SameUnless fails (as.foldlM f b) (as.foldlM g b) := by
  induction as generalizing b with
  | nil => exact refl _
  | cons a rest ih =>
      obtain ⟨hfirst, hrest⟩ := List.forall_mem_cons.1 h
      rw [List.foldlM_cons, List.foldlM_cons]
      exact (hfirst b).bind fun b' _ => ih hrest b'

end SameUnless

/-! ## Look-ups on a set of keys -/

/-- Every key that a schema refers to belongs to a set. -/
def Schema.Within (keys : String → Prop) (schema : Schema) : Prop :=
  ∀ child ∈ schema.children, keys child

theorem Schema.Within.of_kind? {keys : String → Prop} {schema : Schema} (h : schema.Within keys)
    {name target : String} {kind : Kind} (hkind : schema.kind? name = some kind)
    (htarget : kind.target? = some target) : keys target :=
  h target ((schema.mem_children_iff target).2
    ⟨(name, kind), Keyed.mem_of_get?_eq_some hkind, htarget⟩)

theorem Schema.Within.of_property {keys : String → Prop} {schema : Schema}
    (h : schema.Within keys) {p : Property} (hp : p ∈ schema.properties) {target : String}
    (htarget : p.kind.target? = some target) : keys target :=
  h target ((schema.mem_children_iff target).2
    ⟨(p.name, p.kind), List.mem_append_left _ (List.mem_map.2 ⟨p, hp, rfl⟩), htarget⟩)

/-- On a set of keys a look-up gives the answers of another one, unless it fails, and what is
found there does not lead out of the set. -/
structure Mirrors (fails : CatalogError → Prop) (keys : String → Prop) (look look' : Lookup) :
    Prop where
  same : ∀ key, keys key → SameUnless fails (look key) (look' key)
  closed : ∀ key schema, keys key → look key = .ok (some schema) → schema.Within keys

variable {fails : CatalogError → Prop} {keys : String → Prop} {look look' : Lookup}
  {schema : Schema}

namespace Mirrors

theorem require (h : Mirrors fails keys look look') {key : String} (hkey : keys key) :
    SameUnless fails (look.require key) (look'.require key) :=
  (h.same key hkey).bind fun _ _ => .refl _

theorem within_of_require (h : Mirrors fails keys look look') {key : String} (hkey : keys key)
    (hschema : look.require key = .ok schema) : schema.Within keys := by
  obtain ⟨found, hfound, hschema⟩ := bind_eq_ok_iff.1 hschema
  cases found with
  | none => cases hschema
  | some found =>
      cases hschema
      exact h.closed key schema hkey hfound

end Mirrors

/-! ## Forms -/

namespace FormComponent

/-- How a component bound to a reference is entered, from what is found for the target. -/
def Entry.ofFound (key target : String) (seen : List String) : Option Schema → Entry
  | none => .settled (some (.targetNotFound key target)) (key :: seen)
  | some related => .opened related (key :: seen)

/-- A component is entered without looking anything up, and then the schema in scope stays the
same below it, or by looking up the target of a property of the schema. -/
theorem enter_cases (schema : Schema) (c : FormComponent) (seen : List String) :
    (∃ entry, (∀ look, enter look schema c seen = .ok entry) ∧
      ∀ scope seen', entry = .opened scope seen' → scope = schema) ∨
    ∃ key kind target, schema.kind? (Text.lastSegment key) = some kind ∧
      kind.target? = some target ∧
      ∀ look, enter look schema c seen = Entry.ofFound key target seen <$> look target := by
  -- where the check ends at the component there is no scope to go on with
  have hsettled : ∀ defect? seen',
      (∀ look, enter look schema c seen = .ok (.settled defect? seen')) →
      ∃ entry, (∀ look, enter look schema c seen = .ok entry) ∧
        ∀ scope seen', entry = .opened scope seen' → scope = schema :=
    fun _ _ h => ⟨_, h, nofun⟩
  cases hinput : c.input with
  | false =>
      refine Or.inl ⟨.opened schema seen, fun look => by simp [enter, hinput], ?_⟩
      intro scope seen' hopened
      cases hopened
      rfl
  | true =>
      cases hkey : usableKey? c.key with
      | none =>
          refine Or.inl (hsettled (some .missingKey) seen fun look => ?_)
          simp [enter, hinput, hkey]
      | some key =>
          by_cases hseen : key ∈ seen
          · refine Or.inl (hsettled (some (.duplicateKey key)) seen fun look => ?_)
            simp [enter, hinput, hkey, hseen]
          cases hkind : schema.kind? (Text.lastSegment key) with
          | none =>
              refine Or.inl
                (hsettled (some (.notInSchema key schema.key)) (key :: seen) fun look => ?_)
              simp [enter, hinput, hkey, hseen, hkind]
          | some kind =>
              by_cases hleaf : c.components = []
              · refine Or.inl (hsettled none (key :: seen) fun look => ?_)
                simp [enter, hinput, hkey, hseen, hkind, hleaf]
              cases htarget : kind.target? with
              | none =>
                  refine Or.inl (hsettled (some (.notAParent key)) (key :: seen) fun look => ?_)
                  simp [enter, hinput, hkey, hseen, hkind, hleaf, htarget]
              | some target =>
                  refine Or.inr ⟨key, kind, target, hkind, htarget, fun look => ?_⟩
                  have hsome : c.components.isEmpty = false := by simpa using hleaf
                  simp only [enter, hinput, hkey, hseen, hkind, hsome, htarget, Bool.not_true,
                    Bool.false_eq_true, if_false]
                  cases look target with
                  | error e => rfl
                  | ok found =>
                      cases found with
                      | none => rfl
                      | some related => rfl

end FormComponent

namespace Entity

theorem elements_of_ne_array {v : Json} (h : ∀ items, v ≠ .array items) : elements v = [v] := by
  cases v with
  | array items => exact absurd rfl (h items)
  | _ => rfl

theorem nested_of_ne_object {v : Json} (h : ∀ fields, v ≠ .object fields) {property : String} :
    nested look property schema v = mismatch property (expected schema) v := by
  cases v with
  | object fields => exact absurd rfl (h fields)
  | _ => rfl

/-- Induction over what entities are read from. What a field stands for may be read from the field
or from its elements, so it is carried for both. -/
theorem elementsInduction {motive : Json → Prop}
    (other : ∀ v, (∀ fields, v ≠ .object fields) → motive v)
    (object : ∀ fields, (∀ name v, (name, v) ∈ fields →
      ∀ item, item = v ∨ item ∈ elements v → motive item) → motive (.object fields)) (v : Json) :
    ∀ item, item = v ∨ item ∈ elements v → motive item := by
  induction v using Json.valueInduction with
  | leaf v harray hobject =>
      rw [elements_of_ne_array harray]
      intro item hitem
      obtain rfl : item = v := hitem.elim id List.mem_singleton.1
      exact other item hobject
  | array items ih =>
      rintro item (rfl | hitem)
      · exact other _ nofun
      · exact ih item hitem item (Or.inl rfl)
  | object fields ih =>
      intro item hitem
      obtain rfl : item = .object fields := hitem.elim id List.mem_singleton.1
      exact object fields ih

end Entity

namespace Mirrors

section Forms

open FormComponent

variable {c : FormComponent} {seen : List String}

theorem enter (h : Mirrors fails keys look look') (hschema : schema.Within keys) :
    SameUnless fails (enter look schema c seen) (enter look' schema c seen) := by
  rcases enter_cases schema c seen with
    ⟨entry, hentry, -⟩ | ⟨key, kind, target, hkind, htarget, hentry⟩
  · rw [hentry, hentry]
    exact .refl _
  · rw [hentry, hentry]
    exact (h.same target (hschema.of_kind? hkind htarget)).map _

/-- The schema in scope below a component refers to keys of the set only. -/
theorem within_of_opened (h : Mirrors fails keys look look') (hschema : schema.Within keys)
    {scope : Schema} {seen' : List String}
    (hopened : FormComponent.enter look schema c seen = .ok (.opened scope seen')) :
    scope.Within keys := by
  rcases enter_cases schema c seen with
    ⟨entry, hentry, hsame⟩ | ⟨key, kind, target, hkind, htarget, hentry⟩
  · rw [hentry] at hopened
    rwa [hsame scope seen' (Except.ok.inj hopened)]
  · rw [hentry] at hopened
    obtain ⟨found, hfound, hopened⟩ := map_eq_ok_iff.1 hopened
    cases found with
    | none => cases hopened
    | some related =>
        cases hopened
        exact h.closed target scope (hschema.of_kind? hkind htarget) hfound

theorem checkAll (h : Mirrors fails keys look look') (suppress : Bool)
    (components : List FormComponent) : ∀ schema seen, Schema.Within keys schema →
      SameUnless fails (checkAll look suppress schema components seen)
        (checkAll look' suppress schema components seen) := by
  induction components using forestInduction with
  | nil => exact fun _ _ _ => .refl _
  | cons c rest ihbelow ihrest =>
      intro schema seen hschema
      have hfirst : SameUnless fails (check look suppress schema c seen)
          (check look' suppress schema c seen) := by
        rw [check_eq_enter, check_eq_enter]
        refine (h.enter hschema).bind fun entry hentry => ?_
        cases entry with
        | settled defect? seen' => exact .refl _
        | opened scope seen' =>
            exact (ihbelow scope seen' (h.within_of_opened hschema hentry)).map _
      rw [FormComponent.checkAll, FormComponent.checkAll]
      -- as long as both runs go on they have met the same keys
      exact hfirst.bind fun first _ => (ihrest schema first.seen hschema).bind fun _ _ => .refl _

theorem validateForm (h : Mirrors fails keys look look') {root : String} (hroot : keys root)
    (suppress : Bool) (form : FormComponent) :
    SameUnless fails (form.validate look suppress root) (form.validate look' suppress root) := by
  unfold FormComponent.validate
  split
  · exact .refl _
  · refine (h.same root hroot).bind fun found hfound => ?_
    cases found with
    | none => exact .refl _
    | some schema =>
        have hschema := h.closed root schema hroot hfound
        exact (h.checkAll suppress form.components schema [] hschema).bind fun _ _ => .refl _

theorem checkLinker (h : Mirrors fails keys look look') {root : String} {linker : RecordLinker}
    (hroot : keys root) (hrecord : keys linker.recordSchemaKey) :
    SameUnless fails (linker.check look root) (linker.check look' root) := by
  have hpaths : ∀ key paths, keys key → SameUnless fails (RecordLinker.checkPaths look key paths)
      (RecordLinker.checkPaths look' key paths) :=
    fun key paths hkey => (h.validateForm hkey true _).bind fun _ _ => .refl _
  unfold RecordLinker.check
  split
  · exact .refl _
  · exact (hpaths root _ hroot).bind fun _ _ =>
      (hpaths linker.recordSchemaKey _ hrecord).bind fun _ _ => .refl _

end Forms

/-! ## Data requirements -/

section Requirements

open DataRequirement

theorem typeAt (h : Mirrors fails keys look look') (path : String) {segments : List String} :
    ∀ {schema}, Schema.Within keys schema →
      SameUnless fails (typeAt look path schema segments) (typeAt look' path schema segments) := by
  induction segments with
  | nil => exact fun _ => .refl _
  | cons segment rest ih =>
      intro schema hschema
      cases hp : schema.declared? segment with
      | none =>
          rw [DataRequirement.typeAt, DataRequirement.typeAt, hp]
          exact .refl _
      | some p =>
          cases htarget : p.kind.target? with
          | none =>
              rw [typeAt_eq_of_target?_eq_none hp hp htarget]
              exact .refl _
          | some target =>
              have hkey := hschema.of_property (List.mem_of_find?_eq_some hp) htarget
              rw [typeAt_reference hp htarget, typeAt_reference hp htarget]
              refine (h.require hkey).bind fun related hrelated => ?_
              cases rest with
              | nil => exact .refl _
              | cons next rest => exact ih (h.within_of_require hkey hrelated)

theorem validateRequirement (h : Mirrors fails keys look look') {root : String}
    (hroot : keys root) (r : DataRequirement) :
    SameUnless fails (r.validate look root) (r.validate look' root) := by
  unfold DataRequirement.validate
  refine (h.require hroot).bind fun schema hschema => ?_
  exact (h.typeAt r.path (h.within_of_require hroot hschema)).bind fun _ _ => .refl _

theorem validateRequirements (h : Mirrors fails keys look look') {root : String}
    (hroot : keys root) (userType : String) (set : DataRequirementSet) :
    SameUnless fails (set.validate look root userType) (set.validate look' root userType) :=
  SameUnless.forM fun r _ => h.validateRequirement hroot r

end Requirements

/-! ## Entities -/

section Entities

open Entity

theorem build_of_fields {fields : List (String × Json)}
    (hfields : ∀ name v, (name, v) ∈ fields → ∀ p ∈ schema.properties,
      SameUnless fails (coerce look p.name p.kind v) (coerce look' p.name p.kind v)) :
    SameUnless fails (build look schema fields) (build look' schema fields) := by
  rw [build_eq_assemble, build_eq_assemble]
  refine SameUnless.bind (SameUnless.mapM fun p hp => ?_) fun _ _ => .refl _
  have hread : SameUnless fails (readField look p (Keyed.get? fields p.name))
      (readField look' p (Keyed.get? fields p.name)) := by
    cases hget : Keyed.get? fields p.name with
    | none => exact .refl _
    | some v =>
        rw [readField, readField]
        split
        · exact .refl _
        · exact hfields p.name v (Keyed.mem_of_get?_eq_some hget) p hp
  exact hread.bind fun _ _ => .refl _

/-- A value is read the same if the entities in it are, whether it stands for one of them or for
a list. -/
theorem coerce_of_nested (h : Mirrors fails keys look look') {v : Json}
    (hnested : ∀ item, item = v ∨ item ∈ elements v → ∀ property schema, Schema.Within keys schema →
      SameUnless fails (nested look property schema item) (nested look' property schema item))
    (property : String) {kind : Kind} (hkind : ∀ target, kind.target? = some target → keys target) :
    SameUnless fails (coerce look property kind v) (coerce look' property kind v) := by
  cases kind with
  | scalar type =>
      rw [coerce, coerce]
      exact .refl _
  | listOfScalar type =>
      rw [coerce, coerce]
      exact .refl _
  | reference target =>
      have hkey := hkind target rfl
      rw [coerce_reference, coerce_reference]
      refine (h.require hkey).bind fun schema hschema => ?_
      exact (hnested v (Or.inl rfl) property schema (h.within_of_require hkey hschema)).map _
  | listOfReference target =>
      have hkey := hkind target rfl
      rw [coerce_listOfReference, coerce_listOfReference]
      refine (h.require hkey).bind fun schema hschema => SameUnless.map _ (SameUnless.mapM ?_)
      exact fun item hitem =>
        hnested item (Or.inr hitem) property schema (h.within_of_require hkey hschema)

/-- Entities are read the same from a value and from its elements. -/
theorem nested (h : Mirrors fails keys look look') (v : Json) :
    ∀ item, item = v ∨ item ∈ elements v → ∀ property schema, Schema.Within keys schema →
      SameUnless fails (nested look property schema item) (nested look' property schema item) := by
  refine elementsInduction ?_ ?_ v
  · intro v hobject property schema _
    rw [nested_of_ne_object hobject, nested_of_ne_object hobject]
    exact .refl _
  · intro fields ih property schema hschema
    exact build_of_fields fun name v hv p hp =>
      h.coerce_of_nested (ih name v hv) p.name fun _ => hschema.of_property hp

theorem build (h : Mirrors fails keys look look') (hschema : schema.Within keys)
    (payload : List (String × Json)) :
    SameUnless fails (build look schema payload) (build look' schema payload) :=
  build_of_fields fun _ v _ p hp =>
    h.coerce_of_nested (h.nested v) p.name fun _ => hschema.of_property hp

theorem buildFor (h : Mirrors fails keys look look') {root : String} (hroot : keys root)
    (payload : List (String × Json)) :
    SameUnless fails (buildFor look root payload) (buildFor look' root payload) :=
  (h.require hroot).bind fun _ hschema => h.build (h.within_of_require hroot hschema) payload

end Entities

/-! ## Updates -/

section Updates

open Payload

theorem merge_of_values {changes : List (String × Json)}
    (hvalues : ∀ name new, (name, new) ∈ changes → ∀ old?,
      SameUnless fails (mergeValue look (schema.kind? name) old? new)
        (mergeValue look' (schema.kind? name) old? new)) (base : List (String × Json)) :
    SameUnless fails (merge look schema base changes) (merge look' schema base changes) := by
  induction changes generalizing base with
  | nil => exact .refl _
  | cons first rest ih =>
      obtain ⟨name, new⟩ := first
      rw [merge, merge]
      refine (hvalues name new List.mem_cons_self _).bind fun value _ => ih ?_ _
      exact fun name new hmem => hvalues name new (List.mem_cons_of_mem _ hmem)

theorem mergeValue (h : Mirrors fails keys look look') (new : Json) (kind? : Option Kind)
    (old? : Option Json) (hkeys : ∀ target, kind? = some (.reference target) → keys target) :
    SameUnless fails (mergeValue look kind? old? new) (mergeValue look' kind? old? new) := by
  induction new, kind?, old? using mergeInduction with
  | replaced new kind? old? hnew =>
      rw [mergeValue_eq_new hnew, mergeValue_eq_new hnew]
      exact .refl _
  | opened target old fields ih =>
      -- the fields go into the old object, by the schema that the property refers to
      have hkey := hkeys target rfl
      rw [Payload.mergeValue, Payload.mergeValue]
      refine (h.require hkey).bind fun related hrelated => SameUnless.map _ ?_
      have hwithin := h.within_of_require hkey hrelated
      exact merge_of_values (fun name new hmem old? =>
        ih name new hmem (related.kind? name) old? fun _ hkind => hwithin.of_kind? hkind rfl) old

theorem merge (h : Mirrors fails keys look look') (hschema : schema.Within keys)
    (base changes : List (String × Json)) :
    SameUnless fails (merge look schema base changes) (merge look' schema base changes) :=
  merge_of_values (fun name new _ old? =>
    h.mergeValue new (schema.kind? name) old? fun _ hkind => hschema.of_kind? hkind rfl) base

theorem update (h : Mirrors fails keys look look') {e : Entity} (hkey : keys e.schemaKey)
    (changes : List (String × Json)) :
    SameUnless fails (e.update look changes) (e.update look' changes) := by
  unfold Entity.update
  refine (h.require hkey).bind fun schema hschema => ?_
  have hwithin := h.within_of_require hkey hschema
  exact (h.merge hwithin e.toFields changes).bind fun merged _ => h.build hwithin merged

end Updates

/-! ## Related schemas -/

section Related

open Relations

theorem targets (h : Mirrors fails keys look look') (hschema : schema.Within keys) :
    SameUnless fails (targets look schema) (targets look' schema) := by
  refine SameUnless.mapM fun key hkey => h.require (hschema key ?_)
  rw [Schema.children, Schema.mem_sortedKeys_iff]
  exact List.mem_eraseDups.1 hkey

theorem within_of_targets (h : Mirrors fails keys look look') (hschema : schema.Within keys)
    {related : List Schema} (hrelated : Relations.targets look schema = .ok related) :
    ∀ member ∈ related, member.Within keys := by
  obtain ⟨pairs, hkeys, rfl, hpairs⟩ := mapM_eq_ok_iff.1 hrelated
  intro member hmember
  obtain ⟨pair, hpair, rfl⟩ := List.mem_map.1 hmember
  refine h.within_of_require (hschema pair.1 ?_) (hpairs pair hpair)
  rw [Schema.children, Schema.mem_sortedKeys_iff, ← List.mem_eraseDups, hkeys]
  exact List.mem_map.2 ⟨pair, hpair, rfl⟩

theorem expand (h : Mirrors fails keys look look') (bound : Nat) :
    ∀ schema r, Schema.Within keys schema →
      SameUnless fails (expand look bound r schema) (expand look' bound r schema) := by
  induction bound with
  | zero => exact fun _ _ _ => .refl _
  | succ bound ih =>
      intro schema r hschema
      by_cases hold : schema.key ∈ r.expanded
      · rw [expand_of_old hold, expand_of_old hold]
        exact .refl _
      · rw [expand_of_new hold, expand_of_new hold]
        refine (h.targets hschema).bind fun related hrelated => SameUnless.foldlM ?_ _
        exact fun member hmember r =>
          ih member r (h.within_of_targets hschema hrelated member hmember)

end Related

end Mirrors

/-! ## Catalogs -/

namespace Catalog

/-- A bound that is larger than the store does not change what is found. -/
theorem related_eq_expand {c : Catalog} (hindexed : c.store.Indexed) (root : String) {bound : Nat}
    (hbound : c.store.size ≤ bound) :
    c.related root = (do
      let schema ← Lookup.require c.lookup root
      Relations.groups <$> Relations.expand c.lookup bound ⟨[], []⟩ schema) := by
  rw [related, require]
  cases hfound : Lookup.require c.lookup root with
  | error e => rfl
  | ok schema =>
      have hsame := (works_of_size_le hindexed hfound (Nat.le_succ _)).unique
        (works_of_size_le hindexed hfound hbound)
      simp only [bind, Except.bind, hsame]
      rfl

/-- Whatever starts at keys of a set comes out related in two catalogs. -/
structure AlikeFrom (R : (α : Type) → Except CatalogError α → Except CatalogError α → Prop)
    (keys : String → Prop) (c c' : Catalog) : Prop where
  forms : ∀ root (form : FormComponent) suppress, keys root →
    R _ (form.validate c.lookup suppress root) (form.validate c'.lookup suppress root)
  linkers : ∀ root (linker : RecordLinker), keys root → keys linker.recordSchemaKey →
    R _ (linker.check c.lookup root) (linker.check c'.lookup root)
  requirements : ∀ root (r : DataRequirement), keys root →
    R _ (r.validate c.lookup root) (r.validate c'.lookup root)
  requirement_sets : ∀ root userType (set : DataRequirementSet), keys root →
    R _ (set.validate c.lookup root userType) (set.validate c'.lookup root userType)
  related : ∀ root, keys root → R _ (c.related root) (c'.related root)
  entities : ∀ root payload, keys root →
    R _ (Entity.buildFor c.lookup root payload) (Entity.buildFor c'.lookup root payload)
  merges : ∀ root schema base changes, keys root → c.store.get? root = some schema →
    R _ (Payload.merge c.lookup schema base changes) (Payload.merge c'.lookup schema base changes)
  updates : ∀ (e : Entity) changes, keys e.schemaKey →
    R _ (e.update c.lookup changes) (e.update c'.lookup changes)

end Catalog

/-- Over look-ups that mirror each other on a set of keys, all results from there are the same
unless a look-up fails. -/
theorem Mirrors.alikeFrom {c c' : Catalog} (h : Mirrors fails keys c.lookup c'.lookup)
    (hanswers : c.outages = .none) (hindexed : c.store.Indexed) (hindexed' : c'.store.Indexed) :
    Catalog.AlikeFrom (fun _ => SameUnless fails) keys c c' where
  forms := fun _ form suppress hroot => h.validateForm hroot suppress form
  linkers := fun _ _ hroot hrecord => h.checkLinker hroot hrecord
  requirements := fun _ r hroot => h.validateRequirement hroot r
  requirement_sets := fun _ userType set hroot => h.validateRequirements hroot userType set
  related := by
    intro root hroot
    -- the stores may differ in size, but a bound that is enough for both changes neither search
    rw [Catalog.related_eq_expand hindexed root (Nat.le_max_left _ c'.store.size),
      Catalog.related_eq_expand hindexed' root (Nat.le_max_right c.store.size _)]
    refine (h.require hroot).bind fun schema hschema => ?_
    exact (h.expand _ schema _ (h.within_of_require hroot hschema)).map _
  entities := fun _ payload hroot => h.buildFor hroot payload
  merges := by
    intro root schema base changes hroot hschema
    exact h.merge (h.closed root schema hroot (by rw [Catalog.lookup_eq_ok hanswers, hschema]))
      base changes
  updates := fun _ changes hkey => h.update hkey changes

end SchemaCatalog
