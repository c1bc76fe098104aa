import SchemaCatalog.Proofs.Form.Places

/-!
# Layout components

A component that takes no input groups those below it and does no more. To put some siblings into
one such component, or to take them out of it, changes nothing of what is found in a form
(`validate_wrapped`), unless the component is a hidden list whose defects are suppressed.

Components are interchangeable when a check finds the same in both, in whichever scope they stand
and whatever was met before (`Interchangeable`). Siblings beside them make no difference to that
(`Interchangeable.beside`), nor does a component above them (`Interchangeable.below`); so they can
be put in each other's place at any depth of a form (`Interchangeable.within`).
-/

set_option autoImplicit false

namespace SchemaCatalog

namespace FormComponent

/-! ## Other components at a place -/

/-- The form with other components below the one at a place. -/
def withComponents (root : FormComponent) : Place → List FormComponent → FormComponent
  | [], components => { root with components := components }
  | i :: place, components =>
      { root with components := root.components.modify i fun c => c.withComponents place components }

/-- Only what stands below the root differs. -/
theorem withComponents_eq (root : FormComponent) (place : Place) (components : List FormComponent) :
    root.withComponents place components =
      { root with components := (root.withComponents place components).components } := by
  cases place with
  | nil => rfl
  | cons i place => rfl

/-- The component on the way to the place is replaced, and its siblings stay. -/
theorem components_withComponents_cons {root c : FormComponent} {i : Nat}
    (h : root.components[i]? = some c) (place : Place) (components : List FormComponent) :
    root.components = root.components.take i ++ [c] ++ root.components.drop (i + 1) ∧
      (root.withComponents (i :: place) components).components =
        root.components.take i ++ [c.withComponents place components] ++
          root.components.drop (i + 1) := by
  obtain ⟨hlt, rfl⟩ := List.getElem?_eq_some_iff.1 h
  constructor
  · simp
  · rw [withComponents, List.modify_eq_take_cons_drop hlt]
    simp

/-! ## Interchangeable components -/

/-- Components with the same findings in every scope and after any keys. Where none stand, the
others have none either. -/
structure Interchangeable (look : Lookup) (suppress : Bool)
    (components others : List FormComponent) : Prop where
  nil_iff : components = [] ↔ others = []
  checkAll_eq : ∀ schema seen,
    checkAll look suppress schema components seen = checkAll look suppress schema others seen

section Interchanging

variable {look : Lookup} {suppress : Bool} {schema : Schema} {c : FormComponent}
  {components others : List FormComponent} {seen : List String}

/-- The components of the one list are checked first, those of the other with the keys that were
met by then. -/
theorem checkAll_append (components others : List FormComponent) (seen : List String) :
    checkAll look suppress schema (components ++ others) seen = (do
      let first ← checkAll look suppress schema components seen
      let rest ← checkAll look suppress schema others first.seen
      pure ⟨first.defects ++ rest.defects, rest.seen⟩) := by
  induction components generalizing seen with
  | nil =>
      rw [List.nil_append, checkAll]
      dsimp only [bind, Except.bind, pure, Except.pure]
      cases checkAll look suppress schema others seen with
      | error e => rfl
      | ok rest => rfl
  | cons c components ih =>
      rw [List.cons_append, checkAll, checkAll]
      cases check look suppress schema c seen with
      | error e => rfl
      | ok own =>
          dsimp only [bind, Except.bind]
          rw [ih]
          cases checkAll look suppress schema components own.seen with
          | error e => rfl
          | ok first =>
              dsimp only [bind, Except.bind, pure, Except.pure]
              cases checkAll look suppress schema others first.seen with
              | error e => rfl
              | ok rest =>
                  dsimp only
                  rw [List.append_assoc]

/-- What is found at one component alone is what the check of it finds. -/
theorem checkAll_singleton (c : FormComponent) (seen : List String) :
    checkAll look suppress schema [c] seen = check look suppress schema c seen := by
  rw [checkAll]
  cases check look suppress schema c seen with
  | error e => rfl
  | ok own => simp [checkAll, bind, Except.bind, pure, Except.pure]

namespace Interchangeable

theorem symm (h : Interchangeable look suppress components others) :
    Interchangeable look suppress others components :=
  ⟨h.nil_iff.symm, fun schema seen => (h.checkAll_eq schema seen).symm⟩

/-- Interchangeable components stay so between the same siblings. -/
theorem beside (h : Interchangeable look suppress components others)
    (before after : List FormComponent) :
    Interchangeable look suppress (before ++ components ++ after) (before ++ others ++ after) where
  nil_iff := by simp only [List.append_eq_nil_iff, h.nil_iff]
  checkAll_eq := by
    intro schema seen
    simp only [checkAll_append, h.checkAll_eq]

/-- A component is checked the same with interchangeable components below it. -/
theorem below (h : Interchangeable look suppress c.components others) :
    Interchangeable look suppress [c] [{ c with components := others }] where
  nil_iff := iff_of_false (List.cons_ne_nil _ _) (List.cons_ne_nil _ _)
  checkAll_eq := by
    intro schema seen
    -- on entering a component nothing is asked of those below it but whether there are any
    have hempty : c.components.isEmpty = others.isEmpty := by
      rw [Bool.eq_iff_iff, List.isEmpty_iff, List.isEmpty_iff, h.nil_iff]
    have henter : enter look schema { c with components := others } seen =
        enter look schema c seen := by
      simp only [enter, hempty]
    rw [checkAll_singleton, checkAll_singleton, check_eq_enter, check_eq_enter, henter]
    simp only [h.checkAll_eq]
    rfl

/-- Interchangeable components can be put in each other's place at any depth. -/
theorem within {parent : FormComponent} (h : Interchangeable look suppress parent.components others)
    (place : Place) : ∀ {root : FormComponent}, root.at? place = some parent →
      Interchangeable look suppress root.components
        (root.withComponents place others).components := by
  induction place with
  | nil =>
      intro root hat
      cases hat
      exact h
  | cons i place ih =>
      intro root hat
      obtain ⟨c, hc, hat⟩ := Option.bind_eq_some_iff.1 hat
      obtain ⟨hroot, hothers⟩ := components_withComponents_cons hc place others
      rw [hothers, withComponents_eq c place others]
      have hbelow := (below (ih hat)).beside (root.components.take i) (root.components.drop (i + 1))
      rwa [← hroot] at hbelow

/-- A form is judged the same with interchangeable components below its root. -/
theorem validate_eq {root root' : FormComponent}
    (h : Interchangeable look suppress root.components root'.components) (schemaKey : String) :
    root.validate look suppress schemaKey = root'.validate look suppress schemaKey := by
  simp only [validate, h.checkAll_eq]

end Interchangeable

/-- Components are interchangeable with a layout component that holds them. -/
theorem interchangeable_wrapper {wrapper : FormComponent} (hinput : wrapper.input = false)
    (hloud : (suppress && wrapper.isHiddenList) = false) (hsome : components ≠ []) :
    Interchangeable look suppress components [{ wrapper with components := components }] where
  nil_iff := iff_of_false hsome (List.cons_ne_nil _ _)
  checkAll_eq := by
    intro schema seen
    have hentry : enter look schema { wrapper with components := components } seen =
        .ok (.opened schema seen) := by
      simp [enter, hinput]
    rw [checkAll_singleton, check_of_opened hentry hloud]

end Interchanging

/-- To put consecutive siblings at some place into one component that takes no input, or to take
them out of it, leaves the whole result of a check as it is: the same defects in the same order,
or the same error. Only a hidden list is excepted, and that only if what is beneath hidden lists
is suppressed. -/
theorem validate_wrapped (look : Lookup) (suppress : Bool) (schemaKey : String)
    {root parent wrapper : FormComponent} {place : Place} {before run after : List FormComponent}
    (hat : root.at? place = some parent) (hsome : run ≠ []) (hinput : wrapper.input = false)
    (hloud : suppress = true → wrapper.isHiddenList = false) :
    let wrapped := { wrapper with components := run }
    (parent.components = before ++ run ++ after →
      (root.withComponents place (before ++ wrapped :: after)).validate look suppress schemaKey =
        root.validate look suppress schemaKey) ∧
    (parent.components = before ++ wrapped :: after →
      (root.withComponents place (before ++ run ++ after)).validate look suppress schemaKey =
        root.validate look suppress schemaKey) := by
  intro wrapped
  have hsilent : (suppress && wrapper.isHiddenList) = false := by
    cases suppress with
    | false => rfl
    | true => exact hloud rfl
  have hwrapped : Interchangeable look suppress (before ++ run ++ after)
      (before ++ wrapped :: after) := by
    have hbeside : Interchangeable look suppress (before ++ run ++ after)
        (before ++ [wrapped] ++ after) :=
      (interchangeable_wrapper hinput hsilent hsome).beside before after
    rwa [List.append_assoc before [wrapped] after] at hbeside
  constructor
  · intro hparent
    rw [← hparent] at hwrapped
    exact ((hwrapped.within place hat).validate_eq schemaKey).symm
  · intro hparent
    rw [← hparent] at hwrapped
    exact ((hwrapped.symm.within place hat).validate_eq schemaKey).symm

/-- Below the reference a hidden layout takes in the repeated name and the unknown postal code, and
lets them out again. -/
theorem validate_wrapped_in_reference :
    let address : Schema := ⟨none, "Address", "", none, [⟨"city", .scalar .string, []⟩], [], 0⟩
    let person : Schema :=
      ⟨none, "Person", "", none, [⟨"name", .scalar .string, []⟩, ⟨"home", .reference "Address", []⟩], [], 0⟩
    let look := ((Store.empty.put address).put person).lookup
    let run : List FormComponent := [.bound "name" [], .bound "home.zip" []]
    let panel : FormComponent := { key := some "home.zip", type := some "panel", hidden := true }
    let plain : FormComponent := .layoutOnly
      [.bound "name" [], .bound "home" ([.bound "home.city" []] ++ run ++ [])]
    let grouped : FormComponent := .layoutOnly
      [.bound "name" [], .bound "home" [.bound "home.city" [], { panel with components := run }]]
    grouped.validate look true "Person" = plain.validate look true "Person" ∧
      plain.validate look true "Person" = grouped.validate look true "Person" ∧
      plain.validate look true "Person" =
        .ok [.duplicateKey "name", .notInSchema "home.zip" "Address"] := by
  intro address person look run panel plain grouped
  have hinto := @validate_wrapped look true "Person" plain _ panel [1] [.bound "home.city" []] run []
    rfl (List.cons_ne_nil _ _) rfl (fun _ => rfl)
  have hout := @validate_wrapped look true "Person" grouped _ panel [1] [.bound "home.city" []] run []
    rfl (List.cons_ne_nil _ _) rfl (fun _ => rfl)
  refine ⟨hinto.1 rfl, hout.2 rfl, ?_⟩
  decide +kernel

/-- A hidden list that is suppressed lets nothing out. -/
example :
    let item : Schema := ⟨none, "Item", "", none, [⟨"label", .scalar .string, []⟩], [], 0⟩
    let look := (Store.empty.put item).lookup
    let hiddenList : FormComponent :=
      { components := [.bound "price" []], list := true, hidden := true }
    FormComponent.validate look true (.layoutOnly [.bound "price" []]) "Item" =
        .ok [.notInSchema "price" "Item"] ∧
      FormComponent.validate look true (.layoutOnly [hiddenList]) "Item" = .ok [] ∧
      FormComponent.validate look false (.layoutOnly [hiddenList]) "Item" =
        .ok [.notInSchema "price" "Item"] := by decide +kernel

end FormComponent

end SchemaCatalog
