import SchemaCatalog.Form.Validation

/-!
# Checks of single components

On entering a component a check either ends there, with one defect at most, or goes on below it
with some schema in scope (`enter`, `check_eq_enter`).

What a check over a store finds at one component depends on the first thing that is wrong
with it; only a component without input and one bound to a reference lead further down.
-/

set_option autoImplicit false

namespace SchemaCatalog

/-- The look-up of a store that answers every call. -/
def Store.lookup (s : Store) : Lookup := fun key => .ok (s.get? key)

theorem Catalog.lookup_of_answers (rule : KeyRule) (s : Store) :
    (Catalog.mk rule s .none).lookup = s.lookup := rfl

theorem Text.ne_of_not_prefix {first text : String} (h : ¬ first.toList <+: text.toList)
    (rest rest' : String) : first ++ rest ++ rest' ≠ text := by
  rintro rfl
  apply h
  rw [String.append_assoc, String.toList_append]
  exact List.prefix_append _ _

/-- The name of a fault tells whether it is about a key that occurs again. -/
theorem FormDefect.message_eq_duplicateKey_iff {d : FormDefect} {key : String} :
    d.message = (duplicateKey key).message ↔ ∃ key', d = .duplicateKey key' := by
  constructor
  · intro h
    -- the message does not depend on the key, so closed texts are compared
    have hclosed : d.message = (duplicateKey "").message := h
    cases d with
    | duplicateKey key' => exact ⟨key', rfl⟩
    | rootNotFound schemaKey =>
        exact absurd hclosed (Text.ne_of_not_prefix (by decide +kernel) schemaKey _)
    | targetNotFound key' target =>
        exact absurd hclosed (Text.ne_of_not_prefix (by decide +kernel) target _)
    | notInSchema key' schemaKey =>
        exact absurd hclosed (Text.ne_of_not_prefix (by decide +kernel) schemaKey _)
    | missingKey => exact absurd hclosed (by decide +kernel)
    | notAParent key' =>
        have hparent : (notAParent "").message = (duplicateKey "").message := hclosed
        exact absurd hparent (by decide +kernel)
  · rintro ⟨key', rfl⟩
    rfl

namespace FormComponent

theorem usableKey?_eq_some_iff {key? : Option String} {key : String} :
    usableKey? key? = some key ↔ key? = some key ∧ Text.isBlank key = false := by
  cases key? with
  | none => simp [usableKey?]
  | some k =>
      by_cases hblank : Text.isBlank k = true
      · simp only [usableKey?, hblank, if_true, Option.some.injEq, reduceCtorEq, false_iff]
        rintro ⟨rfl, h⟩
        rw [hblank] at h
        cases h
      · rw [usableKey?, if_neg hblank, Option.some.injEq]
        constructor
        · rintro rfl
          exact ⟨rfl, Bool.eq_false_iff.2 hblank⟩
        · rintro ⟨rfl, -⟩
          rfl

/-! ## Entering a component -/

/-- What a check does on entering a component. -/
inductive Entry where
  /-- It ends there, with the defect of the component if it has one. -/
  | settled (defect? : Option FormDefect) (seen : List String)
  /-- It goes on below the component with this schema in scope. -/
  | opened (scope : Schema) (seen : List String)

/-- A component is entered with a schema in scope and the keys met before. -/
def enter (look : Lookup) (schema : Schema) (c : FormComponent) (seen : List String) :
    Except CatalogError Entry :=
  if !c.input then .ok (.opened schema seen)
  else match usableKey? c.key with
    | none => .ok (.settled (some .missingKey) seen)
    | some key =>
        if key ∈ seen then .ok (.settled (some (.duplicateKey key)) seen)
        else match schema.kind? (Text.lastSegment key) with
          | none => .ok (.settled (some (.notInSchema key schema.key)) (key :: seen))
          | some kind =>
              if c.components.isEmpty then .ok (.settled none (key :: seen))
              else match kind.target? with
                | none => .ok (.settled (some (.notAParent key)) (key :: seen))
                | some target => do
                    match ← look target with
                    | none => pure (.settled (some (.targetNotFound key target)) (key :: seen))
                    | some related => pure (.opened related (key :: seen))

section Entering

variable {look : Lookup} {suppress : Bool} {schema : Schema} {c : FormComponent}
  {seen : List String}

/-- A check enters a component and does what is called for there. -/
theorem check_eq_enter : check look suppress schema c seen = (do
    match ← enter look schema c seen with
    | .settled defect? seen => pure ⟨defect?.toList, seen⟩
    | .opened scope seen =>
        (·.silenced (suppress && c.isHiddenList)) <$>
          checkAll look suppress scope c.components seen) := by
  obtain ⟨key?, input, type, components, list, hidden, expressions⟩ := c
  have hsilent : (suppress && (⟨key?, input, type, components, list, hidden,
      expressions⟩ : FormComponent).isHiddenList) = (suppress && hidden && list) := by
    rw [isHiddenList, Bool.and_assoc]
  rw [hsilent, check, enter]
  -- both sides go through the same guards, so it is enough to follow them to where each one ends
  cases input with
  | false => rfl
  | true =>
      simp only [Bool.not_true, Bool.false_eq_true, if_false]
      cases usableKey? key? with
      | none => rfl
      | some key =>
          by_cases hseen : key ∈ seen
          · simp only [hseen, if_true]
            rfl
          simp only [hseen, if_false]
          cases schema.kind? (Text.lastSegment key) with
          | none => rfl
          | some kind =>
              cases components with
              | nil => rfl
              | cons first rest =>
                  simp only [List.isEmpty_cons, Bool.false_eq_true, if_false]
                  cases kind.target? with
                  | none => rfl
                  | some target =>
                      dsimp only
                      cases look target with
                      | error e => rfl
                      | ok found =>
                          cases found with
                          | none => rfl
                          | some related => rfl

/-- A check that ends on entering a component finds the defect it ends with. -/
theorem check_of_settled {defect? : Option FormDefect} {seen' : List String}
    (h : enter look schema c seen = .ok (.settled defect? seen')) :
    check look suppress schema c seen = .ok ⟨defect?.toList, seen'⟩ := by
  rw [check_eq_enter, h]
  rfl

/-- A check that goes on below a component finds what there is, unless that is silenced. -/
theorem check_of_opened {scope : Schema} {seen' : List String}
    (h : enter look schema c seen = .ok (.opened scope seen'))
    (hloud : (suppress && c.isHiddenList) = false) :
    check look suppress schema c seen = checkAll look suppress scope c.components seen' := by
  rw [check_eq_enter, h, hloud]
  -- findings that are not silenced are passed on as they are
  dsimp only [bind, Except.bind]
  cases checkAll look suppress scope c.components seen' with
  | error e => rfl
  | ok found => rfl

end Entering

section Check

variable {s : Store} {suppress : Bool} {schema : Schema} {c : FormComponent} {seen : List String}

/-- A component that takes no input leaves the check to those below it. -/
theorem check_layout (h : c.input = false) (hloud : (suppress && c.isHiddenList) = false) :
    check s.lookup suppress schema c seen =
      checkAll s.lookup suppress schema c.components seen := by
  have hentry : enter s.lookup schema c seen = .ok (.opened schema seen) := by
    simp [enter, h]
  exact check_of_opened hentry hloud

theorem check_unusable (h : c.input = true) (hkey : usableKey? c.key = none) :
    check s.lookup suppress schema c seen = .ok ⟨[.missingKey], seen⟩ := by
  have hentry : enter s.lookup schema c seen = .ok (.settled (some .missingKey) seen) := by
    simp [enter, h, hkey]
  exact check_of_settled hentry

theorem check_repeated {key : String} (h : c.input = true) (hkey : usableKey? c.key = some key)
    (hseen : key ∈ seen) :
    check s.lookup suppress schema c seen = .ok ⟨[.duplicateKey key], seen⟩ := by
  have hentry : enter s.lookup schema c seen = .ok (.settled (some (.duplicateKey key)) seen) := by
    simp [enter, h, hkey, hseen]
  exact check_of_settled hentry

theorem check_unknown {key : String} (h : c.input = true) (hkey : usableKey? c.key = some key)
    (hseen : key ∉ seen) (hkind : schema.kind? (Text.lastSegment key) = none) :
    check s.lookup suppress schema c seen = .ok ⟨[.notInSchema key schema.key], key :: seen⟩ := by
  have hentry : enter s.lookup schema c seen = .ok (.settled (some (.notInSchema key schema.key)) (key :: seen)) := by
    simp [enter, h, hkey, hseen, hkind]
  exact check_of_settled hentry

theorem check_leaf {key : String} {kind : Kind} (h : c.input = true)
    (hkey : usableKey? c.key = some key) (hseen : key ∉ seen)
    (hkind : schema.kind? (Text.lastSegment key) = some kind) (hnone : c.components = []) :
    check s.lookup suppress schema c seen = .ok ⟨[], key :: seen⟩ := by
  have hentry : enter s.lookup schema c seen = .ok (.settled none (key :: seen)) := by
    simp [enter, h, hkey, hseen, hkind, hnone]
  exact check_of_settled hentry

theorem check_scalar {key : String} {kind : Kind} (h : c.input = true)
    (hkey : usableKey? c.key = some key) (hseen : key ∉ seen)
    (hkind : schema.kind? (Text.lastSegment key) = some kind) (hsome : c.components ≠ [])
    (htarget : kind.target? = none) :
    check s.lookup suppress schema c seen = .ok ⟨[.notAParent key], key :: seen⟩ := by
  have hentry : enter s.lookup schema c seen = .ok (.settled (some (.notAParent key)) (key :: seen)) := by
    simp [enter, h, hkey, hseen, hkind, hsome, htarget]
  exact check_of_settled hentry

theorem check_dangling {key target : String} {kind : Kind} (h : c.input = true)
    (hkey : usableKey? c.key = some key) (hseen : key ∉ seen)
    (hkind : schema.kind? (Text.lastSegment key) = some kind) (hsome : c.components ≠ [])
    (htarget : kind.target? = some target) (hstored : s.get? target = none) :
    check s.lookup suppress schema c seen = .ok ⟨[.targetNotFound key target], key :: seen⟩ := by
  have hentry : enter s.lookup schema c seen =
      .ok (.settled (some (.targetNotFound key target)) (key :: seen)) := by
    simp [enter, h, hkey, hseen, hkind, hsome, htarget, Store.lookup, hstored, bind, Except.bind,
      pure, Except.pure]
  exact check_of_settled hentry

/-- Below a reference to a stored schema the check goes on with that schema. -/
theorem check_reference {key target : String} {kind : Kind} {inner : Schema} (h : c.input = true)
    (hloud : (suppress && c.isHiddenList) = false) (hkey : usableKey? c.key = some key)
    (hseen : key ∉ seen) (hkind : schema.kind? (Text.lastSegment key) = some kind) (hsome : c.components ≠ [])
    (htarget : kind.target? = some target) (hstored : s.get? target = some inner) :
    check s.lookup suppress schema c seen =
      checkAll s.lookup suppress inner c.components (key :: seen) := by
  have hentry : enter s.lookup schema c seen = .ok (.opened inner (key :: seen)) := by
    simp [enter, h, hkey, hseen, hkind, hsome, htarget, Store.lookup, hstored, bind, Except.bind,
      pure, Except.pure]
  exact check_of_opened hentry hloud

/-- What is found at some components is what is found at each, one after the other. -/
theorem checkAll_cons {rest : List FormComponent} {first later : Findings}
    (hfirst : check s.lookup suppress schema c seen = .ok first)
    (hlater : checkAll s.lookup suppress schema rest first.seen = .ok later) :
    checkAll s.lookup suppress schema (c :: rest) seen =
      .ok ⟨first.defects ++ later.defects, later.seen⟩ := by
  rw [checkAll, hfirst]
  simp only [bind, Except.bind, hlater, pure, Except.pure]

/-- A form is checked from its root schema on, with no key met before. -/
theorem validate_of_checkAll {key : String} {root : FormComponent} {f : Findings}
    (hkey : Text.isBlank key = false) (hstored : s.get? key = some schema)
    (hfound : checkAll s.lookup suppress schema root.components [] = .ok f) :
    root.validate s.lookup suppress key = .ok f.defects := by
  have hlook : s.lookup key = .ok (some schema) := by rw [Store.lookup, hstored]
  rw [validate, if_neg (Bool.eq_false_iff.1 hkey)]
  simp only [hlook, bind, Except.bind, hfound, pure, Except.pure]

end Check

end FormComponent

end SchemaCatalog
