import SchemaCatalog.Proofs.Catalog.Lookups
import SchemaCatalog.Proofs.Form.Verdict
import SchemaCatalog.Proofs.Linker.Verdict
import SchemaCatalog.Proofs.Requirement.Describing

/-!
# Appending properties

A schema that has further properties behind those of another one, and no name twice, answers for
every name of the other as before (`Schema.Extends.keeps`). A store keeps another one when it
still has every schema, with such answers (`Store.Keeps`); saving a new key, or appending
properties to a stored schema, leads to such a store (`Store.keeps_put`).

What a check accepts over a store it accepts over each store that keeps it: forms with the
defects below hidden lists reported too, record linkers and data requirements
(`Catalog.accepted_after_appending`). Every part of a form or a path that is accepted was looked
at, so that a name that can be found only now plays no part in it.
-/

set_option autoImplicit false
-- catalogs in closed statements are evaluated, down to the pattern of their keys
set_option maxRecDepth 1000

namespace SchemaCatalog

/-! ## Schemas and stores that keep their answers -/

namespace Schema

/-- A schema has the properties of another one, in their order, and perhaps more behind them. -/
structure Extends (new old : Schema) : Prop where
  properties : old.properties <+: new.properties
  computed : old.computed <+: new.computed

/-- Every name that a schema has a kind or a declared property for has the same one still. -/
structure Keeps (new old : Schema) : Prop where
  kind? : ∀ name kind, old.kind? name = some kind → new.kind? name = some kind
  declared? : ∀ name p, old.declared? name = some p → new.declared? name = some p

theorem Keeps.refl (schema : Schema) : schema.Keeps schema := ⟨fun _ _ h => h, fun _ _ h => h⟩

variable {new old : Schema}

theorem Extends.mem_members (h : new.Extends old) {member : String × Kind}
    (hmember : member ∈ old.members) : member ∈ new.members := by
  rcases List.mem_append.1 hmember with hdeclared | hcomputed
  · exact List.mem_append_left _ ((h.properties.map _).subset hdeclared)
  · exact List.mem_append_right _ ((h.computed.map _).subset hcomputed)

/-- Further properties hide none of the old ones, not even a computed one, if no name occurs
twice. -/
theorem Extends.keeps (h : new.Extends old) (hnames : new.DistinctNames) : new.Keeps old where
  kind? := fun _ _ hkind =>
    Keyed.get?_eq_some_of_mem hnames (h.mem_members (Keyed.mem_of_get?_eq_some hkind))
  declared? := fun _ _ hp => h.properties.find?_eq_some hp

end Schema

namespace Store

/-- A store still has every schema of another one, with the answers that it gave. -/
def Keeps (t s : Store) : Prop :=
  ∀ key old, s.get? key = some old → ∃ new, t.get? key = some new ∧ new.Keeps old

/-- Putting a schema with distinct names that extends the one stored under its key, if there is
one, keeps a store. -/
theorem keeps_put {s : Store} {schema : Schema} (hnames : schema.DistinctNames)
    (happended : ∀ stored, s.get? schema.key = some stored → schema.Extends stored) :
    (s.put schema).Keeps s := by
  intro key old hold
  rw [get?_put]
  split
  · rename_i hkey
    rw [hkey] at hold
    have hextends : (s.stamp schema).Extends old :=
      ⟨(happended old hold).properties, (happended old hold).computed⟩
    exact ⟨s.stamp schema, rfl, hextends.keeps hnames⟩
  · exact ⟨old, hold, Schema.Keeps.refl old⟩

theorem require_lookup_eq_ok_iff {s : Store} {key : String} {schema : Schema} :
    Lookup.require s.lookup key = .ok schema ↔ s.get? key = some schema :=
  Catalog.require_eq_ok_iff (c := ⟨.default, s, .none⟩) rfl

theorem Keeps.exists_require {s t : Store} (h : t.Keeps s) {key : String} {old : Schema}
    (hold : Lookup.require s.lookup key = .ok old) :
    ∃ new, Lookup.require t.lookup key = .ok new ∧ new.Keeps old := by
  obtain ⟨new, hnew, hkeeps⟩ := h key old (require_lookup_eq_ok_iff.1 hold)
  exact ⟨new, require_lookup_eq_ok_iff.2 hnew, hkeeps⟩

end Store

/-! ## Forms -/

namespace FormComponent

variable {s t : Store} {new old : Schema} {c : FormComponent}

theorem BoundIn.kept (hstore : t.Keeps s) (hschema : new.Keeps old) (h : BoundIn s old c) :
    BoundIn t new c := by
  obtain ⟨key, kind, hkey, hblank, hkind, hbelow⟩ := h
  refine ⟨key, kind, hkey, hblank, hschema.kind? _ kind hkind, fun hsome => ?_⟩
  obtain ⟨target, below, htarget, hstored⟩ := hbelow hsome
  obtain ⟨below', hstored', -⟩ := hstore target below hstored
  exact ⟨target, below', htarget, hstored'⟩

/-- What is in scope below a component keeps what was in scope there. -/
theorem Opens.keeps (hstore : t.Keeps s) (hschema : new.Keeps old) {inner inner' : Schema}
    (h : Opens s old c inner) (h' : Opens t new c inner') : inner'.Keeps inner := by
  cases hinput : c.input with
  | false =>
      rw [(opens_layout_iff hinput).1 h, (opens_layout_iff hinput).1 h']
      exact hschema
  | true =>
      rw [Opens, if_pos hinput] at h
      obtain ⟨key, kind, target, hkey, hkind, htarget, hstored⟩ := h
      obtain ⟨below, hbelow, hkeeps⟩ := hstore target inner hstored
      rw [(opens_reference_iff hinput hkey (hschema.kind? _ kind hkind) htarget hbelow).1 h']
      exact hkeeps

theorem Fits.kept (hstore : t.Keeps s) {components : List FormComponent} :
    ∀ {new old}, Schema.Keeps new old → Fits s old components → Fits t new components := by
  induction components using forestInduction with
  | nil => exact fun _ _ => fits_nil
  | cons c rest ihbelow ihrest =>
      intro new old hschema h
      obtain ⟨hbound, -, hrest⟩ := fits_cons_iff.1 h
      refine fits_cons_iff.2 ⟨fun hinput => (hbound hinput).kept hstore hschema, ?_,
        ihrest hschema hrest⟩
      intro inner' hopens'
      by_cases hleaf : c.components = []
      · -- nothing stands below, so it does not matter what was in scope there before
        rw [hleaf]
        exact fits_nil
      · obtain ⟨inner, hopens, hbelow⟩ := h.exists_opens List.mem_cons_self hleaf
        exact ihbelow (hopens.keeps hstore hschema hopens') hbelow

/-- A form is only accepted for a root that is stored. -/
theorem exists_stored_of_validate {suppress : Bool} {key : String} {root : FormComponent}
    (h : root.validate s.lookup suppress key = .ok []) :
    Text.isBlank key = false ∧ ∃ schema, s.get? key = some schema := by
  rw [validate] at h
  split at h
  · cases h
  · rename_i hblank
    obtain ⟨found, hfound, h⟩ := bind_eq_ok_iff.1 h
    cases found with
    | none => cases h
    | some schema => exact ⟨Bool.eq_false_iff.2 hblank, schema, Except.ok.inj hfound⟩

/-- A form is accepted for a stored root that it fits, with distinct keys. -/
theorem validate_eq_ok_nil_iff {key : String} {root : FormComponent} :
    root.validate s.lookup false key = .ok [] ↔ Text.isBlank key = false ∧
      ∃ schema, s.get? key = some schema ∧ Fits s schema root.components ∧
        (inputKeys root.components).Nodup := by
  constructor
  · intro h
    obtain ⟨hblank, schema, hstored⟩ := exists_stored_of_validate h
    obtain ⟨defects, hvalidate, hdefects⟩ := validate_of_stored hblank hstored root
    cases hvalidate.symm.trans h
    exact ⟨hblank, schema, hstored, hdefects.1 rfl⟩
  · rintro ⟨hblank, schema, hstored, hfits⟩
    obtain ⟨defects, hvalidate, hdefects⟩ := validate_of_stored hblank hstored root
    rw [hvalidate, hdefects.2 hfits]

theorem validate_kept (hstore : t.Keeps s) {key : String} {root : FormComponent}
    (h : root.validate s.lookup false key = .ok []) :
    root.validate t.lookup false key = .ok [] := by
  obtain ⟨hblank, old, hold, hfits, hnodup⟩ := validate_eq_ok_nil_iff.1 h
  obtain ⟨new, hnew, hkeeps⟩ := hstore key old hold
  exact validate_eq_ok_nil_iff.2 ⟨hblank, new, hnew, hfits.kept hstore hkeeps, hnodup⟩

end FormComponent

/-! ## Record linkers -/

namespace SegmentStep

variable {s t : Store} {new old : Schema} {before : List String} {segment : String} {more : Bool}

/-- A path may still end where it could. -/
theorem walk_ends_kept (hschema : new.Keeps old) (h : walk s old before segment more = .ends) :
    walk t new before segment more = .ends := by
  have hblank : ¬ (before = [] ∧ Text.isBlank segment = true) := by
    intro hblank
    rw [walk_blank hblank] at h
    cases h
  cases hkind : old.kind? segment with
  | none =>
      rw [walk_unknown hblank hkind] at h
      cases h
  | some kind =>
      cases more with
      | false => exact walk_last hblank (hschema.kind? _ kind hkind)
      | true =>
          rcases walk_fails_or_enters s old before segment with ⟨_, hfails⟩ | ⟨_, henters⟩
          · rw [hfails] at h
            cases h
          · rw [henters] at h
            cases h

/-- A segment still leads on where it did, to a schema that keeps the one it led to. -/
theorem walk_enters_kept (hstore : t.Keeps s) (hschema : new.Keeps old) {inner : Schema}
    (h : walk s old before segment more = .enters inner) :
    ∃ inner', walk t new before segment more = .enters inner' ∧ inner'.Keeps inner := by
  have hblank := not_blank_of_walk_enters h
  unfold walk at h
  rw [if_neg hblank] at h
  split at h
  · cases h
  · rename_i kind hkind
    cases more with
    | false => cases h
    | true =>
        simp only [Bool.not_true, Bool.false_eq_true, if_false] at h
        split at h
        · cases h
        · rename_i target htarget
          split at h
          · cases h
          · rename_i found hstored
            cases h
            obtain ⟨inner', hstored', hkeeps⟩ := hstore target inner hstored
            exact ⟨inner', walk_reference hblank (hschema.kind? _ kind hkind) htarget hstored',
              hkeeps⟩

end SegmentStep

namespace PathFault

variable {s t : Store}

/-- A path that resolves still does so. -/
theorem first?_kept (hstore : t.Keeps s) {segments : List String} :
    ∀ {new old before}, Schema.Keeps new old → first? s old before segments = none →
      first? t new before segments = none := by
  induction segments with
  | nil => exact fun _ _ => rfl
  | cons segment rest ih =>
      intro new old before hschema h
      rw [first?] at h ⊢
      split at h
      · cases h
      · rename_i hends
        rw [SegmentStep.walk_ends_kept hschema hends]
      · rename_i inner henters
        obtain ⟨inner', henters', hkeeps⟩ := SegmentStep.walk_enters_kept hstore hschema henters
        rw [henters']
        exact ih hkeeps h

end PathFault

namespace RecordLinker

variable {s t : Store}

/-- Paths have no fault when all of them resolve on a stored schema. -/
theorem checkPaths_eq_ok_nil_iff {key : String} {paths : List String} :
    checkPaths s.lookup key paths = .ok [] ↔ Text.isBlank key = false ∧
      ∃ schema, s.get? key = some schema ∧
        ∀ path ∈ paths, PathFault.ofPath? s schema path = none := by
  constructor
  · intro h
    obtain ⟨defects, hdefects, hnil⟩ := bind_eq_ok_iff.1 h
    rw [List.map_eq_nil_iff.1 (Except.ok.inj hnil)] at hdefects
    obtain ⟨hblank, schema, hstored⟩ := FormComponent.exists_stored_of_validate hdefects
    obtain ⟨faults, hcheck, hcovers⟩ := checkPaths_covers s hblank hstored paths
    exact ⟨hblank, schema, hstored,
      hcovers.map_report_eq_nil_iff.1 (Except.ok.inj (hcheck.symm.trans h))⟩
  · rintro ⟨hblank, schema, hstored, hresolve⟩
    obtain ⟨faults, hcheck, hcovers⟩ := checkPaths_covers s hblank hstored paths
    rw [hcheck, hcovers.map_report_eq_nil_iff.2 hresolve]

theorem checkPaths_kept (hstore : t.Keeps s) {key : String} {paths : List String}
    (h : checkPaths s.lookup key paths = .ok []) : checkPaths t.lookup key paths = .ok [] := by
  obtain ⟨hblank, old, hold, hresolve⟩ := checkPaths_eq_ok_nil_iff.1 h
  obtain ⟨new, hnew, hkeeps⟩ := hstore key old hold
  exact checkPaths_eq_ok_nil_iff.2 ⟨hblank, new, hnew,
    fun path hpath => PathFault.first?_kept hstore hkeeps (hresolve path hpath)⟩

/-- A linker with a mapping is valid when there is no fault on either side. -/
theorem validate_eq_ok_iff_checkPaths {look : Lookup} {transactionKey : String}
    {linker : RecordLinker} :
    linker.validate look transactionKey = .ok () ↔ linker.fieldMappings.isEmpty = false ∧
      checkPaths look transactionKey linker.sourcePaths = .ok [] ∧
      checkPaths look linker.recordSchemaKey (Keyed.keys linker.fieldMappings) = .ok [] := by
  rw [validate_eq_ok_iff, check]
  cases hempty : linker.fieldMappings.isEmpty with
  | true =>
      refine iff_of_false ?_ fun h => Bool.noConfusion h.1
      rintro ⟨errors, herrors, -⟩
      cases herrors
  | false =>
      constructor
      · rintro ⟨errors, herrors, hnone⟩
        obtain ⟨values, hvalues, herrors⟩ := bind_eq_ok_iff.1 herrors
        obtain ⟨keys, hkeys, herrors⟩ := bind_eq_ok_iff.1 herrors
        cases herrors
        rw [LinkerErrors.isEmpty, Bool.and_eq_true, List.isEmpty_iff, List.isEmpty_iff] at hnone
        obtain ⟨rfl, rfl⟩ : values = [] ∧ keys = [] := hnone
        exact ⟨rfl, hvalues, hkeys⟩
      · rintro ⟨-, hvalues, hkeys⟩
        rw [hvalues, hkeys]
        exact ⟨_, rfl, rfl⟩

theorem validate_kept (hstore : t.Keeps s) {transactionKey : String} {linker : RecordLinker}
    (h : linker.validate s.lookup transactionKey = .ok ()) :
    linker.validate t.lookup transactionKey = .ok () := by
  obtain ⟨hmapping, hvalues, hkeys⟩ := validate_eq_ok_iff_checkPaths.1 h
  exact validate_eq_ok_iff_checkPaths.2
    ⟨hmapping, checkPaths_kept hstore hvalues, checkPaths_kept hstore hkeys⟩

end RecordLinker

/-! ## Data requirements -/

namespace DataRequirement

variable {s t : Store}

/-- A path leads to the same type still, if it has a segment. -/
theorem typeAt_kept (hstore : t.Keeps s) {path name : String} {segments : List String} :
    ∀ {new old}, Schema.Keeps new old → segments ≠ [] →
      typeAt s.lookup path old segments = .ok name →
      typeAt t.lookup path new segments = .ok name := by
  induction segments with
  | nil => exact fun _ hsome => absurd rfl hsome
  | cons segment rest ih =>
      intro new old hschema _ h
      cases hp : old.declared? segment with
      | none =>
          rw [typeAt, hp] at h
          cases h
      | some p =>
          have hp' := hschema.declared? segment p hp
          cases htarget : p.kind.target? with
          | none => rwa [typeAt_eq_of_target?_eq_none hp' hp htarget]
          | some target =>
              rw [typeAt_reference hp htarget] at h
              rw [typeAt_reference hp' htarget]
              obtain ⟨related, hrelated, h⟩ := bind_eq_ok_iff.1 h
              obtain ⟨related', hrelated', hkeeps⟩ := hstore.exists_require hrelated
              refine bind_eq_ok_iff.2 ⟨related', hrelated', ?_⟩
              cases rest with
              | nil => exact h
              | cons next rest => exact ih hkeeps (List.cons_ne_nil next rest) h

theorem validate_kept (hstore : t.Keeps s) {root : String} {r : DataRequirement}
    (h : r.validate s.lookup root = .ok ()) : r.validate t.lookup root = .ok () := by
  rw [validate] at h ⊢
  obtain ⟨old, hold, h⟩ := bind_eq_ok_iff.1 h
  obtain ⟨name, hname, h⟩ := bind_eq_ok_iff.1 h
  obtain ⟨new, hnew, hkeeps⟩ := hstore.exists_require hold
  rw [hnew]
  have hname' := typeAt_kept hstore hkeeps (Text.segments_ne_nil r.path) hname
  exact bind_eq_ok_iff.2 ⟨new, rfl, bind_eq_ok_iff.2 ⟨name, hname', h⟩⟩

end DataRequirement

/-! ## Saving in a catalog -/

namespace Catalog

theorem lookup_eq_store_lookup {c : Catalog} (hanswers : c.outages = .none) :
    c.lookup = c.store.lookup :=
  funext fun key => lookup_eq_ok hanswers key

/-- After any calls, let a save store a new key, or a stored schema with properties appended to
its declared or computed ones. What was accepted for a root before is accepted after it. -/
theorem accepted_after_appending (rule : KeyRule) (calls : List Call) {schema saved : Schema}
    {c' : Catalog} :
    let c := (empty rule .none).run calls
    c.save schema = .ok (saved, c') →
      (∀ stored, c.store.get? schema.key = some stored → schema.Extends stored) →
      ∀ root,
        (∀ form : FormComponent, form.validate c.lookup false root = .ok [] →
          form.validate c'.lookup false root = .ok []) ∧
        (∀ linker : RecordLinker, linker.validate c.lookup root = .ok () →
          linker.validate c'.lookup root = .ok ()) ∧
        ∀ r : DataRequirement, r.validate c.lookup root = .ok () →
          r.validate c'.lookup root = .ok () := by
  intro c hsave happended root
  obtain ⟨-, hanswers, -⟩ := indexed_run rule .none calls
  obtain ⟨-, hnames, -, hstore⟩ := save_eq_ok_iff.1 hsave
  obtain ⟨-, -, -, rfl⟩ := storeSave_eq_ok_iff.1 hstore
  have hkeeps : (c.store.put schema).Keeps c.store := Store.keeps_put hnames happended
  rw [lookup_eq_store_lookup hanswers,
    lookup_eq_store_lookup (c := { c with store := c.store.put schema }) hanswers]
  exact ⟨fun form => FormComponent.validate_kept hkeeps,
    fun linker => RecordLinker.validate_kept hkeeps,
    fun r => DataRequirement.validate_kept hkeeps⟩

/-- Addresses get a zip code, which comes before the computed label. -/
theorem accepted_after_appending_in_reference :
    let address : Schema := ⟨none, "Address", "", none, [⟨"city", .scalar .string, []⟩],
      [⟨"label", .scalar .string, "city"⟩], 0⟩
    let person : Schema := ⟨none, "Person", "", none, [⟨"home", .reference "Address", []⟩], [], 0⟩
    let calls : List Call := [.save address, .save person]
    let schema : Schema := ⟨some 1, "Address", "", none,
      [⟨"city", .scalar .string, []⟩, ⟨"zip", .scalar .number, []⟩],
      [⟨"label", .scalar .string, "city"⟩], 1⟩
    let form : FormComponent := .layoutOnly [.bound "home" [.bound "home.label" []]]
    let linker : RecordLinker := ⟨"slip", "Address", [("city", "data.home.city")]⟩
    let r : DataRequirement := ⟨"home.city", "string", []⟩
    let c := (empty .default .none).run calls
    let c' := c.after (.save schema)
    c'.store.get? "Address" = some { schema with version := 2 } ∧
      form.validate c'.lookup false "Person" = .ok [] ∧
      linker.validate c'.lookup "Person" = .ok () ∧ r.validate c'.lookup "Person" = .ok () := by
  intro address person calls schema form linker r c c'
  have hsave : c.save schema = .ok ({ schema with version := 2 }, c') := by
    subst c' c schema calls address person
    with_unfolding_all rfl
  have happended : ∀ stored, c.store.get? schema.key = some stored → schema.Extends stored := by
    have hstored : c.store.get? schema.key = some { address with id := some 1, version := 1 } := by
      subst c schema calls address person
      with_unfolding_all rfl
    intro stored h
    cases hstored.symm.trans h
    exact ⟨⟨[⟨"zip", .scalar .number, []⟩], rfl⟩, List.prefix_rfl⟩
  obtain ⟨hforms, hlinkers, hrequirements⟩ :=
    accepted_after_appending .default calls hsave happended "Person"
  refine ⟨?_, hforms form ?_, hlinkers linker ?_, hrequirements r ?_⟩
  · subst c' c schema calls address person
    with_unfolding_all rfl
  · decide +kernel
  · decide +kernel
  · decide +kernel

end Catalog

end SchemaCatalog
