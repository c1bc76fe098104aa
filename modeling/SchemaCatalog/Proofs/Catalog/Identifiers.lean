import SchemaCatalog.Proofs.Catalog.Loading

/-!
# Identifiers

A store gives out identifiers but keeps those that saved schemas bring along, and it gives a
schema without one the next, also when the key has an identifier already. So identifiers can
be changed, and shared by two keys (`Catalog.identifiers_mixed`).

They stay apart and unchanged while schemas carry what is stored: a saved schema the identifier
under its key, and none if the key is new. Then every identifier is one that was given out
(`Store.Identified`), each save keeps those that are there (`Store.Identified.put`), and so does
every run of such calls (`Catalog.identifiers_kept`). A load takes over stored identifiers by
itself, so only its new definitions must have none.
-/

set_option autoImplicit false

namespace SchemaCatalog

namespace Store

/-- The identifier of the schema stored under a key. -/
def identifier? (s : Store) (key : String) : Option Nat := (s.get? key).bind Schema.id

/-- Each stored schema has an identifier that was given out, and no two have the same. -/
structure Identified (s : Store) : Prop where
  given : ∀ key schema, s.get? key = some schema → ∃ id, schema.id = some id ∧ id ≤ s.lastId
  distinct : ∀ key other schema found, s.get? key = some schema → s.get? other = some found →
    schema.id = found.id → key = other

/-- What is stored under a key stays stored, with the same identifier. -/
def KeepsIdentifiers (s t : Store) : Prop :=
  ∀ key schema, s.get? key = some schema → ∃ later, t.get? key = some later ∧ later.id = schema.id

theorem KeepsIdentifiers.refl (s : Store) : s.KeepsIdentifiers s :=
  fun _ schema h => ⟨schema, h, rfl⟩

theorem KeepsIdentifiers.trans {s t u : Store} (h : s.KeepsIdentifiers t)
    (h' : t.KeepsIdentifiers u) : s.KeepsIdentifiers u := by
  intro key schema hschema
  obtain ⟨later, hlater, hid⟩ := h key schema hschema
  obtain ⟨last, hlast, hid'⟩ := h' key later hlater
  exact ⟨last, hlast, hid'.trans hid⟩

theorem identified_empty : empty.Identified where
  given := by
    intro key schema h
    rw [get?_empty] at h
    cases h
  distinct := by
    intro key other schema found h
    rw [get?_empty] at h
    cases h

section Put

variable {s : Store} {schema : Schema}

/-- A schema with the identifier stored under its key gets that one or, if the key is new, the
next; no other key has it. -/
theorem Identified.stamp (h : s.Identified) (hcarried : schema.id = s.identifier? schema.key) :
    (∃ id, (s.stamp schema).id = some id ∧ id ≤ (s.put schema).lastId) ∧
      (∀ stored, s.get? schema.key = some stored → (s.stamp schema).id = stored.id) ∧
      ∀ key found, s.get? key = some found → found.id = (s.stamp schema).id → key = schema.key := by
  cases hstored : s.get? schema.key with
  | none =>
      have hnone : schema.id = none := by
        rw [hcarried, identifier?, hstored, Option.bind_none]
      have hnext : (s.stamp schema).id = some (s.lastId + 1) := by
        rw [Store.stamp, hnone, Option.getD_none]
      have hlast : (s.put schema).lastId = s.lastId + 1 := by
        rw [Store.put, hnone]
        rfl
      refine ⟨⟨s.lastId + 1, hnext, Nat.le_of_eq hlast.symm⟩, ?_, ?_⟩
      · intro stored hsome
        cases hsome
      · -- the next identifier was not given out yet
        intro key found hfound hid
        obtain ⟨id, hgiven, hle⟩ := h.given key found hfound
        rw [hnext, hgiven, Option.some.injEq] at hid
        omega
  | some stored =>
      obtain ⟨id, hgiven, hle⟩ := h.given schema.key stored hstored
      have hold : schema.id = some id := by
        rw [hcarried, identifier?, hstored, Option.bind_some, hgiven]
      have hsame : (s.stamp schema).id = some id := by
        rw [Store.stamp, hold, Option.getD_some]
      have hlast : (s.put schema).lastId = s.lastId := by
        rw [Store.put, hold]
        rfl
      refine ⟨⟨id, hsame, by rw [hlast]; exact hle⟩, fun found hfound => ?_, ?_⟩
      · obtain rfl := Option.some.inj hfound
        rw [hsame, hgiven]
      · intro key found hfound hid
        exact h.distinct key schema.key found stored hfound hstored
          (hid.trans (hsame.trans hgiven.symm))

theorem le_lastId_put (s : Store) (schema : Schema) : s.lastId ≤ (s.put schema).lastId := by
  rw [put]
  split
  · exact Nat.le_succ s.lastId
  · exact Nat.le_refl s.lastId

/-- The step: a schema that carries the stored identifier keeps all identifiers. -/
theorem Identified.put (h : s.Identified) (hcarried : schema.id = s.identifier? schema.key) :
    (s.put schema).Identified ∧ s.KeepsIdentifiers (s.put schema) := by
  obtain ⟨hgiven, hsame, hown⟩ := h.stamp hcarried
  refine ⟨⟨?_, ?_⟩, ?_⟩
  · refine forall_get?_put hgiven fun key found hfound => ?_
    obtain ⟨id, hid, hle⟩ := h.given key found hfound
    exact ⟨id, hid, Nat.le_trans hle (le_lastId_put s schema)⟩
  · intro key other first second hfirst hsecond hid
    rw [get?_put] at hfirst hsecond
    split at hfirst
    · rename_i hkey
      obtain rfl := Option.some.inj hfirst
      split at hsecond
      · rename_i hother
        rw [hkey, hother]
      · rw [hkey, hown other second hsecond hid.symm]
    · split at hsecond
      · rename_i hother
        obtain rfl := Option.some.inj hsecond
        rw [hother, hown key first hfirst hid]
      · exact h.distinct key other first second hfirst hsecond hid
  · intro key found hfound
    rw [get?_put]
    split
    · rename_i hkey
      rw [hkey] at hfound
      exact ⟨_, rfl, hsame found hfound⟩
    · exact ⟨found, hfound, rfl⟩

end Put

end Store

/-- The schemas of a call carry the identifiers stored under their keys. A load looks these up
itself, so that only its definitions of new keys matter, which must have none. -/
def Call.Carries (c : Catalog) : Call → Prop
  | .save schema | .storeSave schema => schema.id = c.store.identifier? schema.key
  | .load definitions => ∀ d ∈ definitions, c.store.get? d.key = none → d.id = none
  | .loadFrom disk path => ∀ definitions, (Definitions.read disk path).run = .ok definitions →
      ∀ d ∈ definitions, c.store.get? d.key = none → d.id = none

namespace Catalog

section Kept

variable {c : Catalog}

theorem kept_storeSave (h : c.store.Identified) {schema saved : Schema} {c' : Catalog}
    (hcarried : schema.id = c.store.identifier? schema.key)
    (hok : c.storeSave schema = .ok (saved, c')) :
    c'.store.Identified ∧ c.store.KeepsIdentifiers c'.store := by
  obtain ⟨-, -, -, rfl⟩ := storeSave_eq_ok_iff.1 hok
  exact h.put hcarried

theorem kept_save (h : c.store.Identified) {schema saved : Schema} {c' : Catalog}
    (hcarried : schema.id = c.store.identifier? schema.key)
    (hok : c.save schema = .ok (saved, c')) :
    c'.store.Identified ∧ c.store.KeepsIdentifiers c'.store :=
  kept_storeSave h hcarried (save_eq_ok_iff.1 hok).2.2.2

/-- A definition that was looked up carries the stored identifier. -/
theorem carried_of_refresh {d schema : Schema} (hnew : c.store.get? d.key = none → d.id = none)
    (hok : c.refresh d = .ok schema) : schema.id = c.store.identifier? schema.key := by
  rw [refresh] at hok
  obtain ⟨found, hfound, hrest⟩ := bind_eq_ok_iff.1 hok
  have hget : c.store.get? d.key = found := by
    rw [lookup] at hfound
    split at hfound
    · cases hfound
    · exact Except.ok.inj hfound
  cases found with
  | none =>
      cases hrest
      rw [Store.identifier?, hget, hnew hget, Option.bind_none]
  | some stored =>
      cases hrest
      rw [Store.identifier?, hget, Option.bind_some]

/-- Definitions saved in their order keep all identifiers, also if they are not all saved. -/
theorem kept_saveAll {definitions : List Schema} (h : c.store.Identified)
    (hnew : ∀ d ∈ definitions, c.store.get? d.key = none → d.id = none) :
    (c.saveAll definitions).2.store.Identified ∧
      c.store.KeepsIdentifiers (c.saveAll definitions).2.store := by
  induction definitions generalizing c with
  | nil => exact ⟨h, .refl c.store⟩
  | cons d rest ih =>
      obtain ⟨hd, hrest⟩ := List.forall_mem_cons.1 hnew
      rw [saveAll]
      cases hstep : c.refresh d >>= c.save with
      | error e => exact ⟨h, .refl c.store⟩
      | ok result =>
          obtain ⟨schema, hrefresh, hok⟩ := bind_eq_ok_iff.1 hstep
          obtain ⟨hidentified, hkeeps⟩ := kept_save h (carried_of_refresh hd hrefresh) hok
          -- a key that is still new was new before
          have hstill : ∀ e ∈ rest, result.2.store.get? e.key = none → e.id = none := by
            intro e he hnone
            refine hrest e he ?_
            cases hget : c.store.get? e.key with
            | none => rfl
            | some stored =>
                obtain ⟨later, hlater, -⟩ := hkeeps e.key stored hget
                rw [hnone] at hlater
                cases hlater
          obtain ⟨hlast, hall⟩ := ih hidentified hstill
          exact ⟨hlast, hkeeps.trans hall⟩

theorem kept_load {definitions : List Schema} (h : c.store.Identified)
    (hnew : ∀ d ∈ definitions, c.store.get? d.key = none → d.id = none) :
    (c.load definitions).2.store.Identified ∧
      c.store.KeepsIdentifiers (c.load definitions).2.store := by
  rw [load]
  cases harrange : SaveOrder.arrange definitions with
  | error e => exact ⟨h, .refl c.store⟩
  | ok ordered =>
      obtain ⟨hperm, -⟩ := SaveOrder.arranged harrange
      exact kept_saveAll h fun d hd => hnew d (hperm.mem_iff.1 hd)

/-- A call whose schemas carry the stored identifiers keeps them. -/
theorem kept_after (h : c.store.Identified) {call : Call} (hcarries : call.Carries c) :
    (c.after call).store.Identified ∧ c.store.KeepsIdentifiers (c.after call).store := by
  have hsame : c.store.Identified ∧ c.store.KeepsIdentifiers c.store := ⟨h, .refl c.store⟩
  cases call with
  | save schema =>
      exact kept_preserves (P := fun c' => c'.store.Identified ∧ c.store.KeepsIdentifiers c'.store)
        hsame fun saved c' => kept_save h hcarries
  | storeSave schema =>
      exact kept_preserves (P := fun c' => c'.store.Identified ∧ c.store.KeepsIdentifiers c'.store)
        hsame fun saved c' => kept_storeSave h hcarries
  | load definitions => exact kept_load h hcarries
  | loadFrom disk path =>
      rw [after, run_loadFrom]
      cases hread : (Definitions.read disk path).run with
      | error e => exact hsame
      | ok definitions => exact kept_load h (hcarries definitions hread)

/-- Calls whose schemas carry the identifiers that are stored when the call is made. -/
def Carried (c : Catalog) : List Call → Prop
  | [] => True
  | call :: rest => call.Carries c ∧ (c.after call).Carried rest

theorem carried_append_iff (front back : List Call) :
    c.Carried (front ++ back) ↔ c.Carried front ∧ (c.run front).Carried back := by
  induction front generalizing c with
  | nil => simp [Carried, run]
  | cons call rest ih =>
      rw [List.cons_append, Carried, Carried, ih, and_assoc]
      rfl

theorem kept_run {calls : List Call} (h : c.store.Identified) (hcarried : c.Carried calls) :
    (c.run calls).store.Identified ∧ c.store.KeepsIdentifiers (c.run calls).store := by
  induction calls generalizing c with
  | nil => exact ⟨h, .refl c.store⟩
  | cons call rest ih =>
      obtain ⟨hcall, hrest⟩ := hcarried
      obtain ⟨hidentified, hkeeps⟩ := kept_after h hcall
      obtain ⟨hlast, hall⟩ := ih hidentified hrest
      exact ⟨hlast, hkeeps.trans hall⟩

end Kept

/-- Identifiers tell schemas apart and stay with them, as long as the schemas of each call
carry the identifiers that are stored. -/
theorem identifiers_kept (rule : KeyRule) (outages : Outages) {front back : List Call}
    (hcarried : (empty rule outages).Carried (front ++ back)) :
    let before := ((empty rule outages).run front).store
    let after := ((empty rule outages).run (front ++ back)).store
    (∀ key other schema found, after.get? key = some schema → after.get? other = some found →
      key ≠ other → schema.id ≠ found.id) ∧
    ∀ key schema, before.get? key = some schema →
      ∃ later, after.get? key = some later ∧ later.id = schema.id := by
  intro before after
  obtain ⟨hfront, hback⟩ := (carried_append_iff front back).1 hcarried
  obtain ⟨hbefore, -⟩ := kept_run Store.identified_empty hfront
  obtain ⟨hafter, hkeeps⟩ := kept_run hbefore hback
  have hrun : ((empty rule outages).run front).run back = (empty rule outages).run (front ++ back) :=
    List.foldl_append.symm
  rw [hrun] at hafter hkeeps
  refine ⟨fun key other schema found hschema hfound hne hid => ?_, hkeeps⟩
  exact hne (hafter.distinct key other schema found hschema hfound hid)

/-- A schema is saved again with its identifier, and then loaded from a definition without. -/
theorem identifiers_kept_reloaded :
    let address (id : Option Nat) (version : Nat) : Schema :=
      ⟨id, "Address", "", none, [], [], version⟩
    let person : Schema := ⟨none, "Person", "", none, [⟨"home", .reference "Address", []⟩], [], 0⟩
    let front : List Call := [.save (address none 0), .save (address (some 1) 1)]
    let back : List Call := [.load [person, address none 0]]
    let c := empty .default .none
    c.Carried (front ++ back) ∧
      (c.run (front ++ back)).store.version "Address" = 3 ∧
      (c.run (front ++ back)).store.identifier? "Person" = some 2 ∧
      ∀ key schema, (c.run front).store.get? key = some schema →
        ∃ later, (c.run (front ++ back)).store.get? key = some later ∧ later.id = schema.id := by
  intro address person front back c
  have hcarried : c.Carried (front ++ back) := by
    have hgiven : (c.after (.save (address none 0))).store.identifier? "Address" = some 1 := by
      decide +kernel
    refine ⟨rfl, hgiven.symm, fun d hd _ => ?_, trivial⟩
    -- both definitions come without an identifier
    rcases List.mem_pair.1 hd with rfl | rfl
    · rfl
    · rfl
  refine ⟨hcarried, ?_, ?_, (identifiers_kept .default .none hcarried).2⟩
  · decide +kernel
  · decide +kernel

/-- A schema that is saved again without its identifier gets another one, and the store gives
out an identifier that another schema brought along. -/
theorem identifiers_mixed :
    let address (id : Option Nat) (version : Nat) : Schema :=
      ⟨id, "Address", "", none, [], [], version⟩
    let country : Schema := ⟨none, "Country", "", none, [], [], 0⟩
    let first : List Call := [.save (address none 0)]
    let again : List Call := [.save (address none 0), .save (address none 1)]
    let brought : List Call := [.save (address (some 1) 0), .save country]
    let c := empty .default .none
    (∀ call ∈ again ++ brought, call.checked = true) ∧
      (c.run first).store.identifier? "Address" = some 1 ∧
      (c.run again).store.identifier? "Address" = some 2 ∧
      (c.run brought).store.identifier? "Address" = some 1 ∧
      (c.run brought).store.identifier? "Country" = some 1 := by
  intro address country first again brought c
  refine ⟨?_, ?_, ?_, ?_, ?_⟩
  · simp [again, brought, Call.checked]
  · decide +kernel
  · decide +kernel
  · decide +kernel
  · decide +kernel

end Catalog

end SchemaCatalog
