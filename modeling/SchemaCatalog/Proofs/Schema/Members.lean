import Mathlib.Data.List.Nodup
import SchemaCatalog.Proofs.Keyed
import SchemaCatalog.Schema.Basic

/-!
# Members of a schema

The children of a schema are the targets of its reference kinds, declared or computed,
single or in a list (`mem_children_iff`), and it has no duplicate names exactly when the
names of its members are pairwise distinct (`duplicateNames_eq_nil_iff`).
-/

set_option autoImplicit false

namespace SchemaCatalog

namespace Schema

theorem mem_sortedKeys_iff (keys : List String) (key : String) :
    key ∈ sortedKeys keys ↔ key ∈ keys := by
  rw [sortedKeys, Keyed.mem_keys_ofList_iff]
  simp [Keyed.keys]

/-- A key is a child of a schema when some member refers to it. -/
theorem mem_children_iff (s : Schema) (child : String) :
    child ∈ s.children ↔ ∃ m ∈ s.members, m.2.target? = some child := by
  rw [children, mem_sortedKeys_iff]
  constructor
  · intro h
    obtain ⟨⟨name, target⟩, href, rfl⟩ := List.mem_map.1 h
    obtain ⟨m, hm, hsome⟩ := List.mem_filterMap.1 href
    obtain ⟨target', htarget, heq⟩ := Option.map_eq_some_iff.1 hsome
    obtain ⟨-, rfl⟩ := Prod.mk.inj heq
    exact ⟨m, hm, htarget⟩
  · rintro ⟨m, hm, htarget⟩
    refine List.mem_map.2 ⟨(m.1, child), List.mem_filterMap.2 ⟨m, hm, ?_⟩, rfl⟩
    rw [htarget, Option.map_some]

/-- The first name that was seen before is always reported. -/
theorem repeats_eq_nil_iff (seen names : List String) :
    repeats seen [] names = [] ↔ names.Nodup ∧ ∀ name ∈ names, name ∉ seen := by
  induction names generalizing seen with
  | nil => simp [repeats]
  | cons name rest ih =>
      by_cases hseen : name ∈ seen
      · constructor
        · intro h
          simp [repeats, hseen] at h
        · rintro ⟨-, hnew⟩
          exact absurd hseen (hnew name List.mem_cons_self)
      · have hstep : repeats seen [] (name :: rest) = repeats (name :: seen) [] rest := by
          simp [repeats, hseen]
        rw [hstep, ih, List.nodup_cons]
        constructor
        · rintro ⟨hrest, hnew⟩
          refine ⟨⟨fun hin => hnew name hin List.mem_cons_self, hrest⟩, ?_⟩
          intro other hother
          rcases List.mem_cons.1 hother with rfl | hother
          · exact hseen
          · exact fun hin => hnew other hother (List.mem_cons_of_mem name hin)
        · rintro ⟨⟨hname, hrest⟩, hnew⟩
          refine ⟨hrest, fun other hother hin => ?_⟩
          rcases List.mem_cons.1 hin with rfl | hin
          · exact hname hother
          · exact hnew other (List.mem_cons_of_mem name hother) hin

/-- The names of all members are pairwise distinct. -/
def DistinctNames (s : Schema) : Prop := (s.members.map Prod.fst).Nodup

theorem duplicateNames_eq_nil_iff (s : Schema) :
    s.duplicateNames = [] ↔ s.DistinctNames := by
  rw [duplicateNames, repeats_eq_nil_iff]
  simp [DistinctNames]

theorem distinctNames_iff (s : Schema) :
    s.DistinctNames ↔
      (s.properties.map Property.name ++ s.computed.map ComputedProperty.name).Nodup := by
  simp [DistinctNames, members, Function.comp_def]

theorem DistinctNames.nodup_properties {s : Schema} (h : s.DistinctNames) :
    (s.properties.map Property.name).Nodup :=
  (s.distinctNames_iff.1 h).of_append_left

/-- No computed property has the name of a declared one. -/
theorem DistinctNames.ne_of_computed {s : Schema} (h : s.DistinctNames) {p : Property}
    (hp : p ∈ s.properties) {q : ComputedProperty} (hq : q ∈ s.computed) : p.name ≠ q.name := by
  exact (List.nodup_append.1 (s.distinctNames_iff.1 h)).2.2 _ (List.mem_map.2 ⟨p, hp, rfl⟩) _
    (List.mem_map.2 ⟨q, hq, rfl⟩)

/-- The members are found under their names, and nothing else is. -/
theorem DistinctNames.kind?_eq_some_iff {s : Schema} (h : s.DistinctNames) {name : String}
    {kind : Kind} : s.kind? name = some kind ↔ (name, kind) ∈ s.members :=
  ⟨Keyed.mem_of_get?_eq_some, Keyed.get?_eq_some_of_mem h⟩

/-- A declared property is found under its name. -/
theorem DistinctNames.kind?_of_mem {s : Schema} (h : s.DistinctNames) {p : Property}
    (hp : p ∈ s.properties) : s.kind? p.name = some p.kind :=
  h.kind?_eq_some_iff.2 (List.mem_append_left _ (List.mem_map.2 ⟨p, hp, rfl⟩))

end Schema

end SchemaCatalog
