import SchemaCatalog.Linker.Check
import SchemaCatalog.Proofs.Linker.TreeCheck
import SchemaCatalog.Proofs.Results

/-!
# When a record linker is valid

A linker is checked as two trees of paths, and yet judged path by path: each path that
does not resolve by itself is told at the place where it first fails, and each place is
told once (`check_path_by_path`).
-/

set_option autoImplicit false

namespace SchemaCatalog

open PathTree

namespace PathFault

/-- A fault as it is told. -/
def report (f : PathFault) : ValidationError := f.defect.report

/-- Faults that are the first faults of some paths on a schema, one for each place where one
of these paths fails first. -/
structure Covers (s : Store) (schema : Schema) (paths : List String) (faults : List PathFault) :
    Prop where
  distinct : (faults.map upTo).Nodup
  mem_iff : ∀ f, f ∈ faults ↔ ∃ path ∈ paths, ofPath? s schema path = some f

theorem Covers.map_report_eq_nil_iff {s : Store} {schema : Schema} {paths : List String}
    {faults : List PathFault} (h : Covers s schema paths faults) :
    faults.map report = [] ↔ ∀ path ∈ paths, ofPath? s schema path = none := by
  rw [List.map_eq_nil_iff]
  constructor
  · rintro rfl path hpath
    cases hfault : ofPath? s schema path with
    | none => rfl
    | some f => exact absurd ((h.mem_iff f).2 ⟨path, hpath, hfault⟩) List.not_mem_nil
  · intro hresolve
    refine List.eq_nil_iff_forall_not_mem.2 fun f hf => ?_
    obtain ⟨path, hpath, hfault⟩ := (h.mem_iff f).1 hf
    rw [hresolve path hpath] at hfault
    cases hfault

/-- A path never fails because of a key that was met before. -/
theorem defect_ne_duplicateKey {s : Store} {path : List String} {f : PathFault} (key : String) :
    ∀ {schema before}, first? s schema before path = some f → f.defect ≠ .duplicateKey key := by
  induction path with
  | nil =>
      intro schema before h
      cases h
  | cons segment rest ih =>
      intro schema before h
      rw [first?] at h
      split at h
      · rename_i defect hstep
        cases h
        exact SegmentStep.walk_fails_ne_duplicateKey hstep key
      · cases h
      · exact ih h

end PathFault

namespace RecordLinker

theorem checkable_ofPaths (paths : List String) : Checkable [] (ofPaths paths).entries [] where
  ordered := ordered_ofPaths paths
  anchored := by
    intro h
    cases h
  plain := by
    intro path hpath part hpart
    rcases (has_ofPaths_iff paths path).1 hpath with rfl | ⟨whole, -, hbegins⟩
    · cases hpart
    · exact Text.plain_of_mem_segments (hbegins.subset hpart)
  unmet := fun _ _ _ => List.not_mem_nil

/-- The faults of paths on a stored schema are told one for each place. -/
theorem checkPaths_covers (s : Store) {key : String} {schema : Schema}
    (hkey : Text.isBlank key = false) (hstored : s.get? key = some schema)
    (paths : List String) :
    ∃ faults, checkPaths s.lookup key paths = .ok (faults.map PathFault.report) ∧
      PathFault.Covers s schema paths faults := by
  obtain ⟨faults, seen, hfound, hdistinct, hmem, -⟩ :=
    judges_checkAll s (ofPaths paths).entries schema [] [] (checkable_ofPaths paths)
  have hroot : (formOf paths).components =
      componentsOf (Text.dotted []) (ofPaths paths).entries :=
    components_eq "" (ofPaths paths)
  rw [← hroot] at hfound
  refine ⟨faults, ?_, hdistinct, ?_⟩
  · rw [checkPaths, FormComponent.validate_of_checkAll hkey hstored hfound]
    simp only [bind, Except.bind, pure, Except.pure, List.map_map]
    rfl
  · intro f
    rw [hmem f]
    constructor
    · rintro ⟨path, hpath, hfirst⟩
      -- the tree holds beginnings, and where one of them fails the whole path fails
      rcases (has_ofPaths_iff paths path).1 hpath with rfl | ⟨whole, hwhole, hbegins⟩
      · exact absurd rfl (PathFault.ne_nil_of_first? hfirst)
      · exact ⟨whole, hwhole, PathFault.first?_of_prefix hbegins hfirst⟩
    · rintro ⟨path, hpath, hfirst⟩
      exact ⟨Text.segments path, (has_ofPaths_iff paths _).2
        (Or.inr ⟨path, hpath, List.prefix_rfl⟩), hfirst⟩

theorem validate_eq_ok_iff {look : Lookup} {transactionKey : String} {linker : RecordLinker} :
    linker.validate look transactionKey = .ok () ↔
      ∃ errors, linker.check look transactionKey = .ok errors ∧ errors.isEmpty = true := by
  rw [validate, bind_eq_ok_iff]
  refine exists_congr fun errors => and_congr_right fun _ => ?_
  cases errors.isEmpty with
  | false =>
      refine iff_of_false ?_ Bool.false_ne_true
      intro h
      cases h
  | true => exact iff_of_true rfl rfl

/-- A linker is judged path by path: its faults are those of the paths in its expressions on
the transaction schema and of its fields on the record schema, each walked on its own and
each place told once. It is valid exactly when all of them resolve. -/
theorem check_path_by_path (rule : KeyRule) (s : Store) {transactionKey : String}
    {transaction record : Schema} (linker : RecordLinker)
    (hmapping : linker.fieldMappings ≠ []) (htransactionKey : Text.isBlank transactionKey = false)
    (htransaction : s.get? transactionKey = some transaction)
    (hrecordKey : Text.isBlank linker.recordSchemaKey = false)
    (hrecord : s.get? linker.recordSchemaKey = some record) :
    let look := (Catalog.mk rule s .none).lookup
    let fields := Keyed.keys linker.fieldMappings
    (∃ valueFaults keyFaults : List PathFault,
      linker.check look transactionKey = .ok
        ⟨linker.recordDefinitionKey, valueFaults.map PathFault.report,
          keyFaults.map PathFault.report⟩ ∧
      PathFault.Covers s transaction linker.sourcePaths valueFaults ∧
      PathFault.Covers s record fields keyFaults ∧
      ∀ f ∈ valueFaults ++ keyFaults, ∀ key,
        f.report.errorName ≠ (FormDefect.duplicateKey key).message) ∧
    (linker.validate look transactionKey = .ok () ↔
      (∀ path ∈ linker.sourcePaths, PathFault.ofPath? s transaction path = none) ∧
        ∀ path ∈ fields, PathFault.ofPath? s record path = none) := by
  intro look fields
  have hlook : look = s.lookup := Catalog.lookup_of_answers rule s
  obtain ⟨valueFaults, hvalues, hcoversValues⟩ :=
    checkPaths_covers s htransactionKey htransaction linker.sourcePaths
  obtain ⟨keyFaults, hkeys, hcoversKeys⟩ := checkPaths_covers s hrecordKey hrecord fields
  have hcheck : linker.check look transactionKey = .ok
      ⟨linker.recordDefinitionKey, valueFaults.map PathFault.report,
        keyFaults.map PathFault.report⟩ := by
    have hsome : linker.fieldMappings.isEmpty = false := List.isEmpty_eq_false_iff.2 hmapping
    rw [check, hlook, hvalues, hkeys, hsome]
    rfl
  refine ⟨⟨valueFaults, keyFaults, hcheck, hcoversValues, hcoversKeys, ?_⟩, ?_⟩
  · intro f hf key hmessage
    obtain ⟨key', hduplicate⟩ := FormDefect.message_eq_duplicateKey_iff.1 hmessage
    rcases List.mem_append.1 hf with hf | hf
    · obtain ⟨path, -, hfirst⟩ := (hcoversValues.mem_iff f).1 hf
      exact PathFault.defect_ne_duplicateKey key' hfirst hduplicate
    · obtain ⟨path, -, hfirst⟩ := (hcoversKeys.mem_iff f).1 hf
      exact PathFault.defect_ne_duplicateKey key' hfirst hduplicate
  · rw [← hcoversValues.map_report_eq_nil_iff, ← hcoversKeys.map_report_eq_nil_iff,
      validate_eq_ok_iff]
    constructor
    · rintro ⟨errors, herrors, hempty⟩
      cases hcheck.symm.trans herrors
      rw [LinkerErrors.isEmpty, Bool.and_eq_true, List.isEmpty_iff, List.isEmpty_iff] at hempty
      exact hempty
    · rintro ⟨hvalueNil, hkeyNil⟩
      refine ⟨_, hcheck, ?_⟩
      rw [hvalueNil, hkeyNil]
      rfl

/-- Of three paths that begin alike one fails at its second segment, and a path that is the
beginning of one that fails resolves. -/
theorem check_overlapping_paths :
    let address : Schema := ⟨none, "Address", "", none, [⟨"city", .scalar .string, []⟩], [], 0⟩
    let person : Schema :=
      ⟨none, "Person", "", none,
        [⟨"name", .scalar .string, []⟩, ⟨"home", .reference "Address", []⟩], [], 0⟩
    let s := (Store.empty.put address).put person
    let linker : RecordLinker :=
      ⟨"label", "Address",
        [("city", "f(data.home.city, data.home.zip)"), ("city.code", "data.home + data.name.first"),
          ("to", "data.name")]⟩
    let look := (Catalog.mk .default s .none).lookup
    linker.sourcePaths = ["home.city", "home.zip", "home", "name.first", "name"] ∧
      linker.check look "Person" = .ok ⟨"label",
        [(FormDefect.notInSchema "home.zip" "Address").report,
          (FormDefect.notAParent "name").report],
        [(FormDefect.notAParent "city").report,
          (FormDefect.notInSchema "to" "Address").report]⟩ ∧
      linker.validate look "Person" ≠ .ok () := by
  intro address person s linker look
  have hperson : s.get? "Person" = some ((Store.empty.put address).stamp person) :=
    Keyed.get?_insert_self _ _ _
  have haddress : s.get? "Address" = some (Store.empty.stamp address) :=
    (Keyed.get?_insert_of_ne _ _ (by decide +kernel)).trans (Keyed.get?_insert_self _ _ _)
  have hjudged := check_path_by_path .default s linker (List.cons_ne_nil _ _) (by decide +kernel)
    hperson (by decide +kernel) haddress
  refine ⟨by decide +kernel, by decide +kernel, ?_⟩
  intro hvalid
  have hresolves := (hjudged.2.1 hvalid).1 "home.zip" (by decide +kernel)
  have hfails : PathFault.ofPath? s ((Store.empty.put address).stamp person) "home.zip" ≠ none := by
    decide +kernel
  exact hfails hresolves

end RecordLinker

end SchemaCatalog
