import Mathlib.Data.List.Lex
import SchemaCatalog.Proofs.Form.Checking
import SchemaCatalog.Proofs.Form.Scope
import SchemaCatalog.Proofs.Results

/-!
# Places of components and of their defects

The place of a component says how it is reached from the root of its form: its position among
the components at the top, then its position among those below that one, and so on (`at?`).

`checkPlaced` enters components as the check does and keeps with each defect the place of the
component at which it is raised. The places come in document order, and at each of them stands a
component that takes input, under the key with which the defect is told
(`standing_checkAllPlaced`).
-/

set_option autoImplicit false

namespace SchemaCatalog

namespace FormComponent

/-! ## Places -/

/-- The positions on the way from the root of a form to a component. -/
abbrev Place := List Nat

/-- The component at a place below a root. -/
def at? (root : FormComponent) : Place → Option FormComponent
  | [] => some root
  | i :: place => root.components[i]?.bind fun c => c.at? place

theorem at?_cons {root c : FormComponent} {i : Nat} (h : root.components[i]? = some c)
    (place : Place) : root.at? (i :: place) = c.at? place := by
  rw [at?, h, Option.bind_some]

theorem components_of_drop {parent c : FormComponent} {i : Nat} {rest : List FormComponent}
    (h : parent.components.drop i = c :: rest) :
    parent.components[i]? = some c ∧ parent.components.drop (i + 1) = rest := by
  rw [← List.head?_drop, ← List.tail_drop, h]
  exact ⟨rfl, rfl⟩

/-! ## Defects found on entering -/

section Entering

variable {look : Lookup} {schema : Schema} {c : FormComponent} {seen : List String}

/-- A defect found on entering is told under the key of the component, which takes input. -/
theorem control_of_enter {d : FormDefect} {seen' : List String}
    (h : enter look schema c seen = .ok (.settled (some d) seen')) :
    c.input = true ∧ d.control = usableKey? c.key := by
  rw [enter] at h
  cases hinput : c.input with
  | false =>
      rw [hinput] at h
      cases h
  | true =>
      refine ⟨rfl, ?_⟩
      simp only [hinput, Bool.not_true, Bool.false_eq_true, if_false] at h
      cases hkey : usableKey? c.key with
      | none =>
          rw [hkey] at h
          cases h
          rfl
      | some key =>
          simp only [hkey] at h
          split at h
          · cases h
            rfl
          split at h
          · cases h
            rfl
          split at h
          · cases h
          split at h
          · cases h
            rfl
          · obtain ⟨found, -, h⟩ := bind_eq_ok_iff.1 h
            cases found with
            | none =>
                cases h
                rfl
            | some related => cases h

end Entering

/-! ## Checking with places -/

/-- The defects that were raised, each with the place of its component, and the keys met. -/
structure Placed where
  raised : List (Place × FormDefect)
  seen : List String

/-- The findings at the component at a position, and those behind it. -/
def Placed.andBehind (first : Placed) (i : Nat) (later : Placed) : Placed where
  raised := first.raised.map (fun q => (i :: q.1, q.2)) ++ later.raised
  seen := later.seen

mutual

/-- What is found at a component and below it, with places below the component. -/
def checkPlaced (look : Lookup) (schema : Schema) :
    FormComponent → List String → Except CatalogError Placed
  | ⟨key, input, type, components, list, hidden, expressions⟩, seen => do
      match ← enter look schema ⟨key, input, type, components, list, hidden, expressions⟩ seen with
      | .settled defect? seen => pure ⟨defect?.toList.map ([], ·), seen⟩
      | .opened scope seen => checkAllPlaced look scope components 0 seen

/-- What is found at some components and below them, the first of them standing at a position. -/
def checkAllPlaced (look : Lookup) (schema : Schema) :
    List FormComponent → Nat → List String → Except CatalogError Placed
  | [], _, seen => .ok ⟨[], seen⟩
  | c :: rest, i, seen => do
      let first ← checkPlaced look schema c seen
      let later ← checkAllPlaced look schema rest (i + 1) first.seen
      pure (first.andBehind i later)

end

/-- The defects of a form with the places of their components; the root itself is told to have
no schema if there is none under its key. -/
def validatePlaced (look : Lookup) (root : FormComponent) (schemaKey : String) :
    Except CatalogError (List (Place × FormDefect)) :=
  if Text.isBlank schemaKey then .error .blankRootKey
  else do
    match ← look schemaKey with
    | none => pure [([], .rootNotFound schemaKey)]
    | some schema =>
        let found ← checkAllPlaced look schema root.components 0 []
        pure found.raised

/-! ## Where the defects stand -/

/-- The places come in document order, and at each of them stands, below the root, a component that
takes input, under whose key the defect is told. -/
structure Standing (root : FormComponent) (raised : List (Place × FormDefect)) : Prop where
  ordered : (raised.map Prod.fst).Pairwise (· < ·)
  component : ∀ q ∈ raised, ∃ c, root.at? q.1 = some c ∧ c.input = true ∧
    q.2.control = usableKey? c.key

/-- Every place is at a position or behind it. -/
def From (i : Nat) (raised : List (Place × FormDefect)) : Prop :=
  ∀ q ∈ raised, ∃ j place, q.1 = j :: place ∧ i ≤ j

theorem From.ne_nil {i : Nat} {raised : List (Place × FormDefect)} (h : From i raised)
    {q : Place × FormDefect} (hq : q ∈ raised) : q.1 ≠ [] := by
  obtain ⟨j, place, hplace, -⟩ := h q hq
  rw [hplace]
  exact List.cons_ne_nil j place

theorem From.andBehind {i : Nat} {later : Placed} (h : From (i + 1) later.raised) (first : Placed) :
    From i (first.andBehind i later).raised := by
  intro q hq
  rcases List.mem_append.1 hq with hq | hq
  · obtain ⟨own, -, rfl⟩ := List.mem_map.1 hq
    exact ⟨i, own.1, rfl, Nat.le_refl i⟩
  · obtain ⟨j, place, hplace, hle⟩ := h q hq
    exact ⟨j, place, hplace, by omega⟩

/-- Below one component the order is that below it, and what is behind it comes later. -/
theorem Standing.andBehind {root c : FormComponent} {i : Nat} {first later : Placed}
    (hat : root.components[i]? = some c) (hfirst : Standing c first.raised)
    (hlater : Standing root later.raised) (hbehind : From (i + 1) later.raised) :
    Standing root (first.andBehind i later).raised := by
  refine ⟨?_, ?_⟩
  · rw [Placed.andBehind, List.map_append, List.map_map, List.pairwise_append]
    refine ⟨?_, hlater.ordered, ?_⟩
    -- below the component the first positions agree, against what is behind it they decide
    · rw [List.pairwise_map]
      refine (List.pairwise_map.1 hfirst.ordered).imp fun hlt => ?_
      exact List.cons_lt_cons_iff.2 (Or.inr ⟨rfl, hlt⟩)
    · intro place hplace place' hplace'
      obtain ⟨q, -, rfl⟩ := List.mem_map.1 hplace
      obtain ⟨q', hq', rfl⟩ := List.mem_map.1 hplace'
      obtain ⟨j, below, hj, hle⟩ := hbehind q' hq'
      rw [hj]
      exact List.cons_lt_cons_iff.2 (Or.inl (by omega))
  · intro q hq
    rcases List.mem_append.1 hq with hq | hq
    · obtain ⟨own, hmem, rfl⟩ := List.mem_map.1 hq
      rw [at?_cons hat]
      exact hfirst.component own hmem
    · exact hlater.component q hq

section Placing

variable {look : Lookup} {schema : Schema} {c : FormComponent} {seen : List String}

theorem checkPlaced_eq_enter : checkPlaced look schema c seen = (do
    match ← enter look schema c seen with
    | .settled defect? seen => pure ⟨defect?.toList.map ([], ·), seen⟩
    | .opened scope seen => checkAllPlaced look scope c.components 0 seen) := by
  obtain ⟨key, input, type, components, list, hidden, expressions⟩ := c
  rw [checkPlaced]

/-- The step: at a component stands its own defect, or those below it. -/
theorem standing_checkPlaced
    (ih : ∀ scope seen found, checkAllPlaced look scope c.components 0 seen = .ok found →
      Standing c found.raised)
    {found : Placed} (h : checkPlaced look schema c seen = .ok found) :
    Standing c found.raised := by
  rw [checkPlaced_eq_enter] at h
  obtain ⟨entry, hentry, h⟩ := bind_eq_ok_iff.1 h
  cases entry with
  | opened scope seen' => exact ih scope seen' found h
  | settled defect? seen' =>
      cases h
      cases defect? with
      | none => exact ⟨List.Pairwise.nil, List.forall_mem_nil _⟩
      | some d =>
          refine ⟨List.pairwise_singleton _ _, ?_⟩
          intro q hq
          rw [List.mem_singleton.1 hq]
          exact ⟨c, rfl, control_of_enter hentry⟩

/-- Defects of the components from a position on stand at that position or behind it. -/
theorem standing_checkAllPlaced (components : List FormComponent) :
    ∀ schema i seen found parent, List.drop i (FormComponent.components parent) = components →
      checkAllPlaced look schema components i seen = .ok found →
      Standing parent found.raised ∧ From i found.raised := by
  induction components using forestInduction with
  | nil =>
      intro schema i seen found parent _ h
      cases h
      exact ⟨⟨List.Pairwise.nil, List.forall_mem_nil _⟩, List.forall_mem_nil _⟩
  | cons c rest ihbelow ihrest =>
      intro schema i seen found parent hdrop h
      -- the components that are left stand at their positions below the parent
      obtain ⟨hat, hrest⟩ := components_of_drop hdrop
      rw [checkAllPlaced] at h
      obtain ⟨first, hfirst, h⟩ := bind_eq_ok_iff.1 h
      obtain ⟨later, hlater, h⟩ := bind_eq_ok_iff.1 h
      cases h
      have hown : Standing c first.raised := standing_checkPlaced
        (fun scope seen found hfound => (ihbelow scope 0 seen found c rfl hfound).1) hfirst
      obtain ⟨hstanding, hbehind⟩ := ihrest schema (i + 1) first.seen later parent hrest hlater
      exact ⟨Standing.andBehind hat hown hstanding hbehind, hbehind.andBehind first⟩

/-- What is raised in a form is that its root has no schema, or stands below the root. -/
theorem standing_validatePlaced {root : FormComponent} {schemaKey : String}
    {raised : List (Place × FormDefect)} (h : root.validatePlaced look schemaKey = .ok raised) :
    raised = [([], .rootNotFound schemaKey)] ∨ Standing root raised := by
  rw [validatePlaced] at h
  split at h
  · cases h
  obtain ⟨found, -, h⟩ := bind_eq_ok_iff.1 h
  cases found with
  | none =>
      cases h
      exact Or.inl rfl
  | some schema =>
      obtain ⟨placed, hplaced, h⟩ := bind_eq_ok_iff.1 h
      cases h
      exact Or.inr (standing_checkAllPlaced root.components schema 0 [] placed root rfl hplaced).1

end Placing

end FormComponent

end SchemaCatalog
