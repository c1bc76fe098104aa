import SchemaCatalog.Proofs.Catalog.Runs

/-!
# Calls as programs

Several clients may share one store. The store answers each request at once, but between
two requests of a call it may answer those of others, so a call is a program: a request,
and for every answer what is done next. `Call.program` writes the calls of a catalog out
in this way, and `Call.alone_program` says that a program that nobody interrupts does what
the call does. That a registry saves one schema at a time is left out; it only rules out
some of the orders in which the requests of several clients can be answered.
-/

set_option autoImplicit false

namespace SchemaCatalog

/-- Requests to a store, each with what is done on every answer to it. -/
inductive Program (α : Type) where
  | done (result : α)
  | get (key : String) (next : Except CatalogError (Option Schema) → Program α)
  | ancestors (key : String) (next : Except CatalogError (List Schema) → Program α)
  | submit (schema : Schema) (next : Except CatalogError Schema → Program α)

namespace Program

/-- A program that goes on with its result. -/
protected def bind {α β : Type} (p : Program α) (f : α → Program β) : Program β :=
  match p with
  | .done result => f result
  | .get key next => .get key fun found => (next found).bind f
  | .ancestors key next => .ancestors key fun found => (next found).bind f
  | .submit schema next => .submit schema fun saved => (next saved).bind f

instance : Monad Program where
  pure := .done
  bind := Program.bind

/-- A program that stops at the first error. -/
abbrev Failing (α : Type) : Type := ExceptT CatalogError Program α

namespace Failing

def get (key : String) : Failing (Option Schema) := ExceptT.mk (.get key .done)

def ancestors (key : String) : Failing (List Schema) := ExceptT.mk (.ancestors key .done)

def submit (schema : Schema) : Failing Schema := ExceptT.mk (.submit schema .done)

def checkChildren (parent : String) (ancestors : List String) : List String → Failing Unit
  | [] => pure ()
  | child :: rest =>
      if child = parent then throw (.ownChild child)
      else do
        match ← get child with
        | none => throw (.childNotFound child)
        | some _ =>
            if child ∈ ancestors then throw (.parentAsChild child parent)
            else checkChildren parent ancestors rest

def checkComposition (schema : Schema) : Failing Unit :=
  if schema.children.isEmpty then pure ()
  else do
    let ancestors ← ancestors schema.key
    checkChildren schema.key (ancestors.map Schema.key) schema.children

def save (rule : KeyRule) (schema : Schema) : Failing Schema := do
  if !rule.pattern.isFoundIn schema.key then throw (.invalidKey schema.key rule.written)
  if !schema.duplicateNames.isEmpty then throw (.duplicateProperties schema.duplicateNames)
  checkComposition schema
  submit schema

def refresh (definition : Schema) : Failing Schema := do
  match ← get definition.key with
  | some stored => pure { definition with id := stored.id, version := stored.version }
  | none => pure definition

def saveAll (rule : KeyRule) : List Schema → Failing (List Schema)
  | [] => pure []
  | d :: rest => do
      let saved ← save rule (← refresh d)
      let others ← saveAll rule rest
      pure (saved :: others)

def load (rule : KeyRule) (definitions : List Schema) : Failing (List Schema) :=
  match SaveOrder.arrange definitions with
  | .error e => throw e
  | .ok ordered => saveAll rule ordered

end Failing

/-! ## Uninterrupted programs -/

/-- The result of a program that nobody interrupts, and the catalog after it. -/
def alone {α : Type} : Program α → Catalog → α × Catalog
  | .done result, c => (result, c)
  | .get key next, c => (next (c.lookup key)).alone c
  | .ancestors key next, c => (next (c.ancestors key)).alone c
  | .submit schema next, c =>
      match c.storeSave schema with
      | .error e => (next (.error e)).alone c
      | .ok (saved, c') => (next (.ok saved)).alone c'

variable {α β : Type}

theorem alone_bind (p : Program α) (f : α → Program β) (c : Catalog) :
    (p >>= f).alone c = (f (p.alone c).1).alone (p.alone c).2 := by
  induction p generalizing c with
  | done result => rfl
  | get key next ih => exact ih (c.lookup key) c
  | ancestors key next ih => exact ih (c.ancestors key) c
  | submit schema next ih =>
      change (Program.bind (.submit schema next) f).alone c = _
      rw [Program.bind, alone, alone]
      cases c.storeSave schema with
      | error e => exact ih (.error e) c
      | ok result => exact ih (.ok result.1) result.2

namespace Failing

theorem alone_bind (p : Failing α) (f : α → Failing β) (c : Catalog) :
    (p >>= f).run.alone c = match p.run.alone c with
      | (.error e, c') => (.error e, c')
      | (.ok a, c') => (f a).run.alone c' := by
  change (p.run >>= ExceptT.bindCont f).alone c = _
  rw [Program.alone_bind]
  rcases p.run.alone c with ⟨_ | _, c'⟩
  · rfl
  · rfl

/-- Programs that only read fail and succeed as failing operations do. -/
theorem alone_bind_of_reads {p : Failing α} {f : α → Failing β} {c : Catalog}
    {result : Except CatalogError α} {after : α → Except CatalogError β}
    (hp : p.run.alone c = (result, c)) (hf : ∀ a, (f a).run.alone c = (after a, c)) :
    (p >>= f).run.alone c = (result >>= after, c) := by
  rw [alone_bind, hp]
  cases result with
  | error e => rfl
  | ok a => exact hf a

theorem alone_map (p : Failing α) (f : α → β) (c : Catalog) :
    (f <$> p).run.alone c = ((p.run.alone c).1.map f, (p.run.alone c).2) := by
  change (p >>= fun a => pure (f a)).run.alone c = _
  rw [alone_bind]
  rcases p.run.alone c with ⟨_ | _, c'⟩
  · rfl
  · rfl

theorem alone_checkChildren (c : Catalog) (parent : String) (ancestors children : List String) :
    (checkChildren parent ancestors children).run.alone c =
      (c.checkChildren parent ancestors children, c) := by
  induction children with
  | nil => rfl
  | cons child rest ih =>
      rw [checkChildren, Catalog.checkChildren]
      split
      · rfl
      · refine alone_bind_of_reads rfl fun found => ?_
        cases found with
        | none => rfl
        | some stored =>
            -- the ancestors were asked for before, and are not asked for again
            by_cases hanc : child ∈ ancestors
            · simp only [hanc, if_true]
              rfl
            · simp only [hanc, if_false]
              exact ih

theorem alone_checkComposition (c : Catalog) (schema : Schema) :
    (checkComposition schema).run.alone c = (c.checkComposition schema, c) := by
  rw [checkComposition, Catalog.checkComposition]
  split
  · rfl
  · exact alone_bind_of_reads rfl fun found => alone_checkChildren c _ _ _

theorem alone_refresh (c : Catalog) (definition : Schema) :
    (refresh definition).run.alone c = (c.refresh definition, c) := by
  refine alone_bind_of_reads rfl fun found => ?_
  cases found with
  | none => rfl
  | some stored => rfl

theorem alone_submit (c : Catalog) (schema : Schema) :
    (submit schema).run.alone c =
      ((c.storeSave schema).map Prod.fst, c.kept (c.storeSave schema)) := by
  change Program.alone (.submit schema .done) c = _
  rw [Program.alone]
  cases c.storeSave schema with
  | error e => rfl
  | ok result => rfl

theorem alone_save (c : Catalog) (schema : Schema) :
    (save c.keyRule schema).run.alone c =
      ((c.save schema).map Prod.fst, c.kept (c.save schema)) := by
  rw [save, Catalog.save, Catalog.validateKey]
  cases c.keyRule.pattern.isFoundIn schema.key with
  | false => rfl
  | true =>
      cases schema.duplicateNames.isEmpty with
      | false => rfl
      | true =>
          -- what is left asks the store: first about the composition, then to save
          change (checkComposition schema >>= fun _ => submit schema).run.alone c =
            ((c.checkComposition schema >>= fun _ => c.storeSave schema).map Prod.fst,
              c.kept (c.checkComposition schema >>= fun _ => c.storeSave schema))
          rw [alone_bind, alone_checkComposition]
          cases c.checkComposition schema with
          | error e => rfl
          | ok passed => exact alone_submit c schema

theorem alone_saveAll (c : Catalog) (definitions : List Schema) :
    (saveAll c.keyRule definitions).run.alone c = c.saveAll definitions := by
  induction definitions generalizing c with
  | nil => rfl
  | cons d rest ih =>
      rw [saveAll, Catalog.saveAll, alone_bind, alone_refresh]
      cases c.refresh d with
      | error e => rfl
      | ok fresh =>
          change (save c.keyRule fresh >>= fun saved =>
              (saved :: ·) <$> saveAll c.keyRule rest).run.alone c =
            match c.save fresh with
            | .error e => (.error e, c)
            | .ok (saved, c') => ((c'.saveAll rest).1.map (saved :: ·), (c'.saveAll rest).2)
          rw [alone_bind, alone_save]
          cases hsaved : c.save fresh with
          | error e => rfl
          | ok result =>
              -- the rest goes on by the same rule for keys
              have hrule : result.2.keyRule = c.keyRule := by
                obtain ⟨-, -, -, hstore⟩ := Catalog.save_eq_ok_iff.1 hsaved
                obtain ⟨-, -, -, hkept⟩ := Catalog.storeSave_eq_ok_iff.1 hstore
                rw [hkept]
              refine (alone_map _ _ result.2).trans ?_
              rw [← hrule, ih result.2]

theorem alone_load (c : Catalog) (definitions : List Schema) :
    (load c.keyRule definitions).run.alone c = c.load definitions := by
  rw [load, Catalog.load]
  cases SaveOrder.arrange definitions with
  | error e => rfl
  | ok ordered => exact alone_saveAll c ordered

end Failing

end Program

/-- The requests of a call, which answers with the schemas that it saved. -/
def Call.program (rule : KeyRule) : Call → Program.Failing (List Schema)
  | .save schema => ([·]) <$> Program.Failing.save rule schema
  | .storeSave schema => ([·]) <$> Program.Failing.submit schema
  | .load definitions => Program.Failing.load rule definitions
  | .loadFrom disk path => match (Definitions.read disk path).run with
      | .error e => throw e
      | .ok definitions => Program.Failing.load rule definitions

/-- The answer to a call. -/
def Catalog.answer (c : Catalog) : Call → Except CatalogError (List Schema)
  | .save schema => (c.save schema).map fun result => [result.1]
  | .storeSave schema => (c.storeSave schema).map fun result => [result.1]
  | .load definitions => (c.load definitions).1
  | .loadFrom disk path => (c.loadFrom disk path).run.1

/-- A call whose requests nobody interrupts gives its answer and its catalog. -/
theorem Call.alone_program (c : Catalog) (call : Call) :
    (call.program c.keyRule).run.alone c = (c.answer call, c.after call) := by
  cases call with
  | save schema =>
      refine (Program.Failing.alone_map _ _ c).trans ?_
      rw [Program.Failing.alone_save, Catalog.answer]
      cases hsaved : c.save schema with
      | error e => simp [Except.map, Catalog.after, hsaved]
      | ok result => simp [Except.map, Catalog.after, hsaved]
  | storeSave schema =>
      refine (Program.Failing.alone_map _ _ c).trans ?_
      rw [Program.Failing.alone_submit, Catalog.answer]
      cases hsaved : c.storeSave schema with
      | error e => simp [Except.map, Catalog.after, hsaved]
      | ok result => simp [Except.map, Catalog.after, hsaved]
  | load definitions => exact Program.Failing.alone_load c definitions
  | loadFrom disk path =>
      rw [Call.program, Catalog.answer, Catalog.after, Catalog.run_loadFrom]
      cases (Definitions.read disk path).run with
      | error e => rfl
      | ok definitions => exact Program.Failing.alone_load c definitions

end SchemaCatalog
