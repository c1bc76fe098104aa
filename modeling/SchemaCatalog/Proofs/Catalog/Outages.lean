import SchemaCatalog.Proofs.Catalog.Mirroring

/-!
# Outages of the store

A store of which some calls fail is taken beside the same store without failures. Whatever is
asked of a catalog, the answer is the one that it gives without failures, or the error of one of
the failing calls, and then the store is as it was (`Catalog.results_under_outages`). So no failure
is taken for a missing schema, counted as a defect of a form or a path, or met after a part of a
save was done.
-/

set_option autoImplicit false

namespace SchemaCatalog

namespace Outages

/-- Whether a call to the store fails for a key. -/
def fails (outages : Outages) : StoreCall → String → Bool
  | .get => outages.get
  | .ancestors => outages.ancestors
  | .save => outages.save

/-- The errors of the calls that fail. -/
def Raises (outages : Outages) (e : CatalogError) : Prop :=
  ∃ call key, outages.fails call key = true ∧ e = .storeFailure call key

end Outages

/-- A call that may fail has its own error then. -/
theorem SameUnless.of_call {outages : Outages} {α : Type} (call : StoreCall) (key : String)
    {down : Bool} (hdown : outages.fails call key = down) (a : Except CatalogError α) :
    SameUnless outages.Raises a (if down then .error (.storeFailure call key) else a) := by
  cases down with
  | false => exact .refl _
  | true => exact Or.inr ⟨_, ⟨call, key, hdown, rfl⟩, rfl⟩

namespace Catalog

/-- The schema as a catalog saves it, and the store with it. -/
def saved (c : Catalog) (schema : Schema) : Except CatalogError (Schema × Store) :=
  (fun p => (p.1, p.2.store)) <$> c.save schema

/-- A save goes through the rules, and then through a call to the store. -/
theorem saved_eq (c : Catalog) (schema : Schema) : c.saved schema = (do
    c.validateKey schema.key
    if schema.duplicateNames.isEmpty then
      c.checkComposition schema
      if c.outages.save schema.key then .error (.storeFailure .save schema.key)
      else c.store.save schema
    else .error (.duplicateProperties schema.duplicateNames)) := by
  rw [saved, save]
  cases c.validateKey schema.key with
  | error e => rfl
  | ok u =>
      cases schema.duplicateNames.isEmpty with
      | false => rfl
      | true =>
          cases c.checkComposition schema with
          | error e => rfl
          | ok u =>
              dsimp only [bind, Except.bind]
              rw [storeSave]
              cases c.outages.save schema.key with
              | true => rfl
              | false =>
                  cases c.store.save schema with
                  | error e => rfl
                  | ok found => rfl

theorem save_eq_error_of_saved {c : Catalog} {schema : Schema} {e : CatalogError}
    (h : c.saved schema = .error e) : c.save schema = .error e := by
  rw [saved] at h
  cases hsave : c.save schema with
  | error e' =>
      rw [hsave] at h
      cases h
      rfl
  | ok found =>
      rw [hsave] at h
      cases h

theorem after_save_store (c : Catalog) (schema : Schema) :
    (c.after (.save schema)).store = match c.saved schema with
      | .ok (_, s) => s
      | .error _ => c.store := by
  rw [after, saved]
  cases c.save schema with
  | error e => rfl
  | ok found => rfl

section Failing

variable {c : Catalog} {outages : Outages}

theorem lookup_mirrors (hanswers : c.outages = .none) :
    Mirrors outages.Raises (fun _ => True) c.lookup { c with outages := outages }.lookup where
  same := by
    intro key _
    rw [lookup_eq_ok hanswers]
    exact SameUnless.of_call .get key rfl _
  closed := fun _ _ _ _ _ _ => trivial

theorem ancestors_sameUnless (hanswers : c.outages = .none) (key : String) :
    SameUnless outages.Raises (c.ancestors key) ({ c with outages := outages }.ancestors key) := by
  have hup : c.ancestors key = .ok (c.store.ancestors key) := by
    rw [ancestors, hanswers]
    rfl
  rw [hup]
  exact SameUnless.of_call .ancestors key rfl _

theorem checkChildren_sameUnless (hanswers : c.outages = .none) (parent : String)
    (ancestors children : List String) :
    SameUnless outages.Raises (c.checkChildren parent ancestors children)
      ({ c with outages := outages }.checkChildren parent ancestors children) := by
  induction children with
  | nil => exact .refl _
  | cons child rest ih =>
      unfold checkChildren
      split
      · exact .refl _
      · refine ((lookup_mirrors hanswers).same child trivial).bind fun found _ => ?_
        cases found with
        | none => exact .refl _
        | some related =>
            dsimp only
            split
            · exact .refl _
            · exact ih

theorem checkComposition_sameUnless (hanswers : c.outages = .none) (schema : Schema) :
    SameUnless outages.Raises (c.checkComposition schema)
      ({ c with outages := outages }.checkComposition schema) := by
  unfold checkComposition
  split
  · exact .refl _
  · exact (ancestors_sameUnless hanswers schema.key).bind fun found _ =>
      checkChildren_sameUnless hanswers schema.key (found.map Schema.key) schema.children

theorem saved_sameUnless (hanswers : c.outages = .none) (schema : Schema) :
    SameUnless outages.Raises (c.saved schema) ({ c with outages := outages }.saved schema) := by
  have hup : c.outages.save schema.key = false := by
    rw [hanswers]
    rfl
  rw [saved_eq, saved_eq, hup]
  -- the form of the key and the names are judged without a call
  refine SameUnless.bind (.refl _) fun _ _ => ?_
  split
  · refine (checkComposition_sameUnless hanswers schema).bind fun _ _ => ?_
    exact SameUnless.of_call .save schema.key rfl _
  · exact .refl _

end Failing

/-- Over every store that calls build, let any calls to the store fail. What is asked then has the
same result as without failures, with the same store after it, or the error of a failing call,
and then the store does not change. -/
theorem results_under_outages (rule : KeyRule) (calls : List Call) (outages : Outages) :
    let c := (empty rule .none).run calls
    let c' : Catalog := { c with outages := outages }
    AlikeFrom (fun _ => SameUnless outages.Raises) (fun _ => True) c c' ∧
      (∀ schema base changes, SameUnless outages.Raises
        (Payload.merge c.lookup schema base changes)
        (Payload.merge c'.lookup schema base changes)) ∧
      ∀ schema,
        c'.saved schema = c.saved schema ∧
            (c'.after (.save schema)).store = (c.after (.save schema)).store ∨
          ∃ e, outages.Raises e ∧ c'.save schema = .error e ∧
            (c'.after (.save schema)).store = c.store := by
  intro c c'
  obtain ⟨-, hanswers, hindexed⟩ := indexed_run rule .none calls
  have hmirrors : Mirrors outages.Raises (fun _ => True) c.lookup c'.lookup :=
    lookup_mirrors hanswers
  have hindexed' : c'.store.Indexed := hindexed
  refine ⟨hmirrors.alikeFrom hanswers hindexed hindexed',
    fun schema base changes => hmirrors.merge (fun _ _ => trivial) base changes, fun schema => ?_⟩
  have hsaved : SameUnless outages.Raises (c.saved schema) (c'.saved schema) :=
    saved_sameUnless hanswers schema
  rcases hsaved with hsame | ⟨e, hraises, hfailed⟩
  · refine Or.inl ⟨hsame, ?_⟩
    rw [after_save_store, after_save_store, hsame]
  · refine Or.inr ⟨e, hraises, save_eq_error_of_saved hfailed, ?_⟩
    rw [after_save_store, hfailed]

end Catalog

end SchemaCatalog
