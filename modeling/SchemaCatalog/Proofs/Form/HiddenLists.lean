import SchemaCatalog.Proofs.Form.Places

/-!
# Hidden lists

A place lies beneath a hidden list when some component on the way to it, other than the root and
the component at the place itself, is a hidden list (`BeneathHiddenList`).

A check that suppresses what is beneath hidden lists meets the same keys as one that does not, so
of the defects that the latter raises it leaves out those beneath hidden lists and no other
(`checkAll_eq_told`). What is found in a form differs accordingly (`validate_suppressed`).
-/

set_option autoImplicit false

namespace SchemaCatalog

namespace FormComponent

/-! ## Beneath hidden lists -/

/-- Some component strictly between the root and the place is a hidden list. -/
def BeneathHiddenList (root : FormComponent) (place : Place) : Prop :=
  ∃ above below c, place = above ++ below ∧ above ≠ [] ∧ below ≠ [] ∧ root.at? above = some c ∧
    c.isHiddenList = true

theorem not_beneathHiddenList_nil (root : FormComponent) : ¬ BeneathHiddenList root [] := by
  rintro ⟨above, below, c, hplace, habove, -⟩
  exact habove (List.append_eq_nil_iff.1 hplace.symm).1

/-- Beneath a component of the root a place lies beneath a hidden list if the component is one, or
if it does so below the component. -/
theorem beneathHiddenList_cons_iff {root c : FormComponent} {i : Nat}
    (h : root.components[i]? = some c) (place : Place) :
    BeneathHiddenList root (i :: place) ↔
      (place ≠ [] ∧ c.isHiddenList = true) ∨ BeneathHiddenList c place := by
  constructor
  · rintro ⟨above, below, outer, hplace, habove, hbelow, hat, hhidden⟩
    cases above with
    | nil => exact absurd rfl habove
    | cons j above =>
        obtain ⟨rfl, rfl⟩ := List.cons.inj hplace
        rw [at?_cons h] at hat
        cases above with
        | nil =>
            cases hat
            exact Or.inl ⟨hbelow, hhidden⟩
        | cons k above => exact Or.inr ⟨k :: above, below, outer, rfl, nofun, hbelow, hat, hhidden⟩
  · rintro (⟨hbelow, hhidden⟩ | ⟨above, below, outer, rfl, -, hbelow, hat, hhidden⟩)
    · exact ⟨[i], place, c, rfl, nofun, hbelow, at?_cons h [], hhidden⟩
    · refine ⟨i :: above, below, outer, rfl, nofun, hbelow, ?_, hhidden⟩
      rw [at?_cons h, hat]

theorem not_beneathHiddenList_of_none {root : FormComponent} {i : Nat}
    (h : root.components[i]? = none) (place : Place) : ¬ BeneathHiddenList root (i :: place) := by
  rintro ⟨above, below, outer, hplace, habove, -, hat, -⟩
  cases above with
  | nil => exact habove rfl
  | cons j above =>
      obtain ⟨rfl, -⟩ := List.cons.inj hplace
      rw [at?, h] at hat
      cases hat

instance decidableBeneathHiddenList (root : FormComponent) :
    (place : Place) → Decidable (BeneathHiddenList root place)
  | [] => isFalse (not_beneathHiddenList_nil root)
  | i :: place =>
      match h : root.components[i]? with
      | none => isFalse (not_beneathHiddenList_of_none h place)
      | some c =>
          have := decidableBeneathHiddenList c place
          decidable_of_iff _ (beneathHiddenList_cons_iff h place).symm

/-! ## What a check tells -/

/-- The findings without places, of the defects at places that are heard. -/
def Placed.told (heard : Place → Bool) (found : Placed) : Findings where
  defects := (found.raised.filter fun q => heard q.1).map Prod.snd
  seen := found.seen

/-- The places below a root that are heard: with suppression, those not beneath a hidden list. -/
def heard (suppress : Bool) (root : FormComponent) (place : Place) : Bool :=
  !(suppress && decide (BeneathHiddenList root place))

/-- The places that are heard below the parent of a component, as seen from the component. -/
def heardAbove (suppress : Bool) (c : FormComponent) (place : Place) : Bool :=
  !(suppress && (decide (place ≠ []) && c.isHiddenList || decide (BeneathHiddenList c place)))

theorem heard_cons {suppress : Bool} {root c : FormComponent} {i : Nat}
    (h : root.components[i]? = some c) (place : Place) :
    heard suppress root (i :: place) = heardAbove suppress c place := by
  simp [heard, heardAbove, beneathHiddenList_cons_iff h]

theorem Placed.told_congr {heard heard' : Place → Bool} {found : Placed}
    (h : ∀ q ∈ found.raised, heard q.1 = heard' q.1) : found.told heard = found.told heard' := by
  rw [told, told, List.filter_congr h]

/-- The defects below a component are silenced exactly if they are not heard above it. -/
theorem Placed.silenced_told {suppress : Bool} {c : FormComponent} {found : Placed}
    (hbelow : ∀ q ∈ found.raised, q.1 ≠ []) :
    (found.told (heard suppress c)).silenced (suppress && c.isHiddenList) =
      found.told (heardAbove suppress c) := by
  cases hsilent : suppress && c.isHiddenList with
  | false =>
      rw [Findings.silenced, if_neg Bool.false_ne_true]
      refine told_congr fun q _ => ?_
      rw [heard, heardAbove, Bool.and_or_distrib_left, Bool.and_left_comm, hsilent, Bool.and_false,
        Bool.false_or]
  | true =>
      obtain ⟨hsuppress, hhidden⟩ := Bool.and_eq_true_iff.1 hsilent
      -- every place is below the component itself, and so beneath a hidden list
      have hnone : (found.raised.filter fun q => heardAbove suppress c q.1) = [] := by
        refine List.filter_eq_nil_iff.2 fun q hq => ?_
        simp [heardAbove, hsuppress, hhidden, hbelow q hq]
      rw [Findings.silenced, if_pos rfl, told, told, hnone]
      rfl

theorem Placed.told_andBehind {suppress : Bool} {root c : FormComponent} {i : Nat}
    (h : root.components[i]? = some c) (first later : Placed) :
    (first.andBehind i later).told (heard suppress root) =
      ⟨(first.told (heardAbove suppress c)).defects ++ (later.told (heard suppress root)).defects,
        later.seen⟩ := by
  simp only [told, andBehind, List.filter_append, List.map_append, List.filter_map, List.map_map,
    Function.comp_def, heard_cons h]

section Telling

variable {look : Lookup} {suppress : Bool} {schema : Schema} {c : FormComponent}
  {seen : List String}

/-- The step: what is told of a component is its own defect, or what is heard from below it. -/
theorem check_eq_told
    (ih : ∀ scope seen, checkAll look suppress scope c.components seen =
      Placed.told (heard suppress c) <$> checkAllPlaced look scope c.components 0 seen) :
    check look suppress schema c seen =
      Placed.told (heardAbove suppress c) <$> checkPlaced look schema c seen := by
  rw [check_eq_enter, checkPlaced_eq_enter]
  cases enter look schema c seen with
  | error e => rfl
  | ok entry =>
      cases entry with
      | settled defect? seen' =>
          have hown : heardAbove suppress c [] = true := by
            simp [heardAbove, not_beneathHiddenList_nil]
          cases defect? with
          | none => rfl
          | some d =>
              simp [bind, Except.bind, pure, Except.pure, Functor.map, Except.map, Placed.told, hown]
      | opened scope seen' =>
          simp only [bind, Except.bind]
          rw [ih scope seen']
          cases hfound : checkAllPlaced look scope c.components 0 seen' with
          | error e => rfl
          | ok found =>
              have hbelow : From 0 found.raised :=
                (standing_checkAllPlaced c.components scope 0 seen' found c rfl hfound).2
              exact congrArg Except.ok (Placed.silenced_told fun q => hbelow.ne_nil)

/-- With or without suppression, the components from a position on are told of as far as they are
heard below their parent. -/
theorem checkAll_eq_told (components : List FormComponent) :
    ∀ schema i seen parent, List.drop i (FormComponent.components parent) = components →
      checkAll look suppress schema components seen =
        Placed.told (heard suppress parent) <$> checkAllPlaced look schema components i seen := by
  induction components using forestInduction with
  | nil =>
      intro schema i seen parent _
      rfl
  | cons c rest ihbelow ihrest =>
      intro schema i seen parent hdrop
      obtain ⟨hat, hrest⟩ := components_of_drop hdrop
      rw [checkAll, checkAllPlaced, check_eq_told fun scope seen => ihbelow scope 0 seen c rfl]
      cases checkPlaced look schema c seen with
      | error e => rfl
      | ok first =>
          simp only [bind, Except.bind, Functor.map, Except.map]
          -- what is told leaves the keys met alone, so the rest starts from the same ones
          rw [show (Placed.told (heardAbove suppress c) first).seen = first.seen from rfl,
            ihrest schema (i + 1) first.seen parent hrest]
          cases checkAllPlaced look schema rest (i + 1) first.seen with
          | error e => rfl
          | ok later => exact congrArg Except.ok (Placed.told_andBehind hat first later).symm

/-- A form is told of as far as it is heard below its root. -/
theorem validate_eq_told (root : FormComponent) (schemaKey : String) :
    root.validate look suppress schemaKey =
      (fun raised => (Placed.told (heard suppress root) ⟨raised, []⟩).defects) <$>
        root.validatePlaced look schemaKey := by
  rw [validate, validatePlaced]
  split
  · rfl
  cases look schemaKey with
  | error e => rfl
  | ok found =>
      cases found with
      | none =>
          have hroot : heard suppress root [] = true := by simp [heard, not_beneathHiddenList_nil]
          simp [bind, Except.bind, pure, Except.pure, Functor.map, Except.map, Placed.told, hroot]
      | some schema =>
          simp only [bind, Except.bind]
          rw [checkAll_eq_told root.components schema 0 [] root rfl]
          cases checkAllPlaced look schema root.components 0 [] with
          | error e => rfl
          | ok found => rfl

end Telling

/-- Suppression beneath hidden lists removes the defects that are raised there and nothing else:
both checks fail with the same error, or both succeed and differ in these defects only. -/
theorem validate_suppressed (look : Lookup) (root : FormComponent) (schemaKey : String) :
    (∃ e, root.validatePlaced look schemaKey = .error e ∧
        root.validate look false schemaKey = .error e ∧
        root.validate look true schemaKey = .error e) ∨
      ∃ raised, root.validatePlaced look schemaKey = .ok raised ∧
        root.validate look false schemaKey = .ok (raised.map Prod.snd) ∧
        root.validate look true schemaKey =
          .ok ((raised.filter fun q => ¬ BeneathHiddenList root q.1).map Prod.snd) ∧
        (raised = [([], .rootNotFound schemaKey)] ∨ Standing root raised) := by
  have hloud : root.validate look false schemaKey = _ := validate_eq_told root schemaKey
  have hsilent : root.validate look true schemaKey = _ := validate_eq_told root schemaKey
  cases hplaced : root.validatePlaced look schemaKey with
  | error e =>
      rw [hplaced] at hloud hsilent
      exact Or.inl ⟨e, rfl, hloud, hsilent⟩
  | ok raised =>
      rw [hplaced] at hloud hsilent
      refine Or.inr ⟨raised, rfl, ?_, ?_, standing_validatePlaced hplaced⟩
      · rw [hloud]
        simp [Functor.map, Except.map, Placed.told, heard]
      · rw [hsilent]
        simp [Functor.map, Except.map, Placed.told, heard]

/-- The unknown price is left out with its list, but the label met there counts as met. -/
example :
    let item : Schema := ⟨none, "Item", "", none, [⟨"label", .scalar .string, []⟩], [], 0⟩
    let order : Schema := ⟨none, "Order", "", none,
      [⟨"items", .listOfReference "Item", []⟩, ⟨"label", .scalar .string, []⟩], [], 0⟩
    let s := (Store.empty.put item).put order
    let items : FormComponent :=
      { FormComponent.bound "items" [.bound "label" [], .bound "items.price" []] with
        list := true, hidden := true }
    FormComponent.validate s.lookup true (.layoutOnly [items, .bound "label" []]) "Order" =
      .ok [.duplicateKey "label"] := by decide +kernel

end FormComponent

end SchemaCatalog
