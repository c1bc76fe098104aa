import SchemaCatalog.Proofs.Catalog.Runs

/-!
# Invariants of a catalog

By the rules of saving alone a catalog only gets lawful stores: composition has no cycle,
every schema that another is composed of is stored, and every schema stands under its
own key, which has the form asked for, with distinct names (`lawful_run`). The rules are
exact over every store that calls can build, those past the rules included: a save
succeeds just when it keeps them, and it changes one entry or nothing (`save_exact`).
-/

set_option autoImplicit false

namespace SchemaCatalog

open Relation

namespace Store

/-- What the rules of saving make of a store. -/
structure Lawful (s : Store) (rule : KeyRule) : Prop where
  acyclic : Acyclic s.Composes
  children_stored : ∀ parent child, s.Composes parent child → ∃ schema, s.get? child = some schema
  own_key : ∀ key schema, s.get? key = some schema → schema.key = key
  key_form : ∀ key schema, s.get? key = some schema → rule.pattern.isFoundIn key = true
  distinct_names : ∀ key schema, s.get? key = some schema → schema.DistinctNames

theorem lawful_empty (rule : KeyRule) : empty.Lawful rule where
  acyclic := by
    intro key hcycle
    obtain ⟨child, hstep, -⟩ := TransGen.head'_iff.1 hcycle
    exact not_composes_empty key child hstep
  children_stored := fun parent child h => absurd h (not_composes_empty parent child)
  own_key := indexed_empty.own_key
  key_form := by
    intro key schema h
    rw [get?_empty] at h
    cases h
  distinct_names := by
    intro key schema h
    rw [get?_empty] at h
    cases h

/-- Putting a schema keeps what is stored stored. -/
theorem exists_get?_put {s : Store} {key : String} (schema : Schema)
    (h : ∃ stored, s.get? key = some stored) :
    ∃ stored, (s.put schema).get? key = some stored := by
  rw [get?_put]
  split
  · exact ⟨_, rfl⟩
  · exact h

/-- The step: an accepted schema with a good key and distinct names keeps a store lawful. -/
theorem Lawful.put {s : Store} {rule : KeyRule} (h : s.Lawful rule) {schema : Schema}
    (hkey : rule.pattern.isFoundIn schema.key = true) (hnames : schema.DistinctNames)
    (haccepts : s.Accepts schema) : (s.put schema).Lawful rule where
  acyclic := by
    rw [composes_put]
    exact h.acyclic.redirected haccepts.no_cycle
  children_stored := by
    intro parent child hchild
    rw [composes_put] at hchild
    by_cases hparent : parent = schema.key
    · rw [hparent, redirected_self_iff] at hchild
      exact exists_get?_put schema (haccepts.children_stored child hchild).2
    · rw [redirected_iff_of_ne hparent] at hchild
      exact exists_get?_put schema (h.children_stored parent child hchild)
  own_key := forall_get?_put rfl h.own_key
  key_form := forall_get?_put hkey h.key_form
  distinct_names := forall_get?_put hnames h.distinct_names

end Store

namespace Catalog

/-- A save by the rules keeps a lawful and indexed store lawful. -/
theorem lawful_of_save {rule : KeyRule} {c c' : Catalog} {schema saved : Schema}
    (hrule : c.keyRule = rule) (hindexed : c.store.Indexed) (hlawful : c.store.Lawful rule)
    (hok : c.save schema = .ok (saved, c')) :
    c'.keyRule = rule ∧ c'.store.Indexed ∧ c'.store.Lawful rule := by
  obtain ⟨hkey, hnames, hcomposition, hstore⟩ := save_eq_ok_iff.1 hok
  obtain ⟨-, -, -, rfl⟩ := storeSave_eq_ok_iff.1 hstore
  rw [hrule] at hkey
  exact ⟨hrule, hindexed.put schema,
    hlawful.put hkey hnames (accepts_of_checkComposition hindexed hcomposition)⟩

/-- Every store that calls by the rules build is lawful, whichever of them fail. -/
theorem lawful_run (rule : KeyRule) (outages : Outages) {calls : List Call}
    (hcalls : ∀ call ∈ calls, call.checked = true) :
    ((empty rule outages).run calls).store.Lawful rule := by
  -- the check reads the ancestors off the graph, so that the index is part of the invariant
  have hrun : ((empty rule outages).run calls).keyRule = rule ∧
      ((empty rule outages).run calls).store.Indexed ∧
      ((empty rule outages).run calls).store.Lawful rule := by
    refine run_preserves (P := fun c => c.keyRule = rule ∧ c.store.Indexed ∧ c.store.Lawful rule)
      ?_ hcalls (empty rule outages) ⟨rfl, Store.indexed_empty, Store.lawful_empty rule⟩
    rintro c schema saved c' ⟨hrule, hindexed, hlawful⟩ hok
    exact lawful_of_save hrule hindexed hlawful hok
  exact hrun.2.2

/-- The load would make the two schemas contain each other; the rest of the run stays. -/
theorem lawful_run_refused_cycle :
    let calls : List Call :=
      [.save ⟨none, "Address", "", none, [], [], 0⟩,
        .save ⟨none, "Person", "", none, [⟨"home", .reference "Address", []⟩], [], 0⟩,
        .load [⟨none, "Address", "", none, [⟨"owners", .listOfReference "Person", []⟩], [], 0⟩]]
    let store := ((empty .default .none).run calls).store
    (∀ call ∈ calls, call.checked = true) ∧
      store.keys = ["Address", "Person"] ∧ store.version "Address" = 1 ∧
      store.Lawful .default := by
  intro calls store
  have hcalls : ∀ call ∈ calls, call.checked = true := by
    simp [calls, Call.checked]
  refine ⟨hcalls, ?_, ?_, lawful_run .default .none hcalls⟩
  · decide +kernel
  · decide +kernel

/-- Every store that calls build, also past the rules, is indexed. -/
theorem indexed_run (rule : KeyRule) (outages : Outages) (calls : List Call) :
    ((empty rule outages).run calls).keyRule = rule ∧
      ((empty rule outages).run calls).outages = outages ∧
      ((empty rule outages).run calls).store.Indexed := by
  refine run_preserves_of_storeSave
    (P := fun c => c.keyRule = rule ∧ c.outages = outages ∧ c.store.Indexed)
    ?_ calls (empty rule outages) ⟨rfl, rfl, Store.indexed_empty⟩
  rintro c schema saved c' ⟨hrule, houtages, hindexed⟩ hok
  obtain ⟨-, -, -, rfl⟩ := storeSave_eq_ok_iff.1 hok
  exact ⟨hrule, houtages, hindexed.put schema⟩

/-- What calls by the rules leave a catalog with. -/
theorem lawful_indexed_run (rule : KeyRule) {calls : List Call}
    (hcalls : ∀ call ∈ calls, call.checked = true) :
    let c := (empty rule .none).run calls
    c.keyRule = rule ∧ c.outages = .none ∧ c.store.Indexed ∧ c.store.Lawful rule := by
  intro c
  obtain ⟨hrule, hanswers, hindexed⟩ := indexed_run rule .none calls
  have hlawful : c.keyRule = rule ∧ c.store.Indexed ∧ c.store.Lawful rule :=
    run_preserves (P := fun c => c.keyRule = rule ∧ c.store.Indexed ∧ c.store.Lawful rule)
      (fun _ _ _ _ ⟨hrule, hindexed, hlawful⟩ hok => lawful_of_save hrule hindexed hlawful hok)
      hcalls (empty rule .none) ⟨rfl, Store.indexed_empty, Store.lawful_empty rule⟩
  exact ⟨hrule, hanswers, hindexed, hlawful.2.2⟩

/-- A save is exact and changes one entry or nothing, over every store that calls build. -/
theorem save_exact (rule : KeyRule) (calls : List Call) (schema : Schema) :
    let c := (empty rule .none).run calls
    ((∃ saved c', c.save schema = .ok (saved, c')) ↔
      rule.pattern.isFoundIn schema.key = true ∧ schema.DistinctNames ∧
        c.store.Accepts schema ∧ schema.version = c.store.version schema.key) ∧
    (∀ saved c', c.save schema = .ok (saved, c') →
      saved = { schema with
        id := some (schema.id.getD (c.store.lastId + 1)), version := schema.version + 1 } ∧
      c.after (.save schema) = c' ∧
      ∀ key, c'.store.get? key = if key = schema.key then some saved else c.store.get? key) ∧
    ∀ e, c.save schema = .error e → c.after (.save schema) = c := by
  intro c
  -- past the rules a store may hold cycles and missing children, but its index stays right
  obtain ⟨hrule, hanswers, hindexed⟩ := indexed_run rule .none calls
  refine ⟨?_, ?_, ?_⟩
  · constructor
    · rintro ⟨saved, c', hok⟩
      obtain ⟨hkey, hnames, hcomposition, hstore⟩ := save_eq_ok_iff.1 hok
      obtain ⟨-, hversion, -, -⟩ := storeSave_eq_ok_iff.1 hstore
      rw [hrule] at hkey
      exact ⟨hkey, hnames, accepts_of_checkComposition hindexed hcomposition, hversion⟩
    · rintro ⟨hkey, hnames, haccepts, hversion⟩
      rw [← hrule] at hkey
      have hup : c.outages.save schema.key = false := by
        rw [hanswers]
        rfl
      exact ⟨_, _, save_eq_ok_iff.2 ⟨hkey, hnames,
        (checkComposition_eq_ok_iff_accepts hindexed hanswers).2 haccepts,
        storeSave_eq_ok_iff.2 ⟨hup, hversion, rfl, rfl⟩⟩⟩
  · intro saved c' hok
    obtain ⟨-, -, -, hstore⟩ := save_eq_ok_iff.1 hok
    obtain ⟨-, -, rfl, rfl⟩ := storeSave_eq_ok_iff.1 hstore
    refine ⟨rfl, ?_, fun key => Store.get?_put c.store schema key⟩
    rw [after, hok]
    rfl
  · intro e herror
    rw [after, herror]
    rfl

end Catalog

end SchemaCatalog
