import SchemaCatalog.Proofs.Form.Places
import SchemaCatalog.Proofs.Form.Scope

/-!
# Visits of components

At a component that takes input a check stops with the first of the faults that it can have there
(`FirstDefect`), or has nothing to go on to, or goes on below it (`check_input_cases`).

A `Visit` is what a check knows at such a component, and a tour is the list of visits that it makes
of some components and those below them (`Tours`). A check makes a tour and tells the defects on it
in their order (`exists_tours`). On a tour no visit lies beneath one with a defect
(`Tours.precedes`), and every component that is not beneath one is visited (`Tours.complete`); what
counts as met at a visit are the keys of the visits before it (`Tours.meets`).
-/

set_option autoImplicit false

namespace SchemaCatalog

namespace FormComponent

/-! ## The first fault of a component -/

/-- What is wrong first with a component that takes input, in the scope of a schema; the keys of
some components before it count as met. -/
inductive FirstDefect (s : Store) (scope : Schema) (c : FormComponent) (met : String → Prop) :
    FormDefect → Prop
  | missing (hkey : usableKey? c.key = none) : FirstDefect s scope c met .missingKey
  | repeated {key : String} (hkey : usableKey? c.key = some key) (hmet : met key) :
      FirstDefect s scope c met (.duplicateKey key)
  | unknown {key : String} (hkey : usableKey? c.key = some key) (hmet : ¬ met key)
      (hkind : scope.kind? (Text.lastSegment key) = none) :
      FirstDefect s scope c met (.notInSchema key scope.key)
  | noParent {key : String} {kind : Kind} (hkey : usableKey? c.key = some key) (hmet : ¬ met key)
      (hkind : scope.kind? (Text.lastSegment key) = some kind) (hsome : c.components ≠ [])
      (htarget : kind.target? = none) : FirstDefect s scope c met (.notAParent key)
  | dangling {key target : String} {kind : Kind} (hkey : usableKey? c.key = some key)
      (hmet : ¬ met key) (hkind : scope.kind? (Text.lastSegment key) = some kind)
      (hsome : c.components ≠ []) (htarget : kind.target? = some target)
      (hstored : s.get? target = none) : FirstDefect s scope c met (.targetNotFound key target)

section FirstDefect

variable {s : Store} {scope : Schema} {c : FormComponent} {met met' : String → Prop}
  {d d' : FormDefect}

theorem FirstDefect.unique (h : FirstDefect s scope c met d) (h' : FirstDefect s scope c met d') :
    d = d' := by
  cases h <;> cases h' <;> simp_all

/-- A fault is told under the key of its component. -/
theorem FirstDefect.control (h : FirstDefect s scope c met d) : d.control = usableKey? c.key := by
  cases h with
  | missing hkey => exact hkey.symm
  | repeated hkey _ => exact hkey.symm
  | unknown hkey _ _ => exact hkey.symm
  | noParent hkey _ _ _ _ => exact hkey.symm
  | dangling hkey _ _ _ _ _ => exact hkey.symm

theorem FirstDefect.congr (hmet : ∀ key, usableKey? c.key = some key → (met key ↔ met' key))
    (h : FirstDefect s scope c met d) : FirstDefect s scope c met' d := by
  cases h with
  | missing hkey => exact .missing hkey
  | repeated hkey h => exact .repeated hkey ((hmet _ hkey).1 h)
  | unknown hkey h hkind => exact .unknown hkey (mt (hmet _ hkey).2 h) hkind
  | noParent hkey h hkind hsome htarget =>
      exact .noParent hkey (mt (hmet _ hkey).2 h) hkind hsome htarget
  | dangling hkey h hkind hsome htarget hstored =>
      exact .dangling hkey (mt (hmet _ hkey).2 h) hkind hsome htarget hstored

theorem firstDefect_congr (hmet : ∀ key, usableKey? c.key = some key → (met key ↔ met' key)) :
    FirstDefect s scope c met d ↔ FirstDefect s scope c met' d :=
  ⟨FirstDefect.congr hmet, FirstDefect.congr fun key hkey => (hmet key hkey).symm⟩

/-- A fault that is the first is the only one. -/
theorem FirstDefect.eq_some_iff (h : FirstDefect s scope c met d) :
    some d = some d' ↔ FirstDefect s scope c met d' := by
  rw [Option.some.injEq]
  constructor
  · rintro rfl
    exact h
  · exact h.unique

/-- A component is repeated exactly if its key was met. -/
theorem firstDefect_duplicateKey_iff {key : String} :
    FirstDefect s scope c met (.duplicateKey key) ↔ usableKey? c.key = some key ∧ met key := by
  constructor
  · intro h
    cases h with
    | repeated hkey hmet => exact ⟨hkey, hmet⟩
  · exact fun ⟨hkey, hmet⟩ => .repeated hkey hmet

end FirstDefect

/-! ## What a check does at a component that takes input -/

/-- The keys met after a component are those met before and its own, if that is usable. -/
def MetAfter (seen : List String) (c : FormComponent) (seen' : List String) : Prop :=
  ∀ key, key ∈ seen' ↔ key ∈ seen ∨ usableKey? c.key = some key

section Input

variable {c : FormComponent} {seen : List String}

theorem metAfter_of_none (hkey : usableKey? c.key = none) : MetAfter seen c seen := by
  intro key
  rw [hkey]
  simp

theorem metAfter_of_mem {key : String} (hkey : usableKey? c.key = some key) (hseen : key ∈ seen) :
    MetAfter seen c seen := by
  intro key'
  rw [hkey, Option.some.injEq]
  constructor
  · exact Or.inl
  · rintro (h | rfl)
    · exact h
    · exact hseen

theorem metAfter_cons {key : String} (hkey : usableKey? c.key = some key) :
    MetAfter seen c (key :: seen) := by
  intro key'
  rw [hkey, List.mem_cons, Option.some.injEq, or_comm, eq_comm]

/-- A check stops at a component that takes input, with the first fault of the component or with
none where nothing stands below; or it goes on below the component. -/
theorem check_input_cases (s : Store) (schema : Schema) (seen : List String) (h : c.input = true) :
    (∃ defect? seen', check s.lookup false schema c seen = .ok ⟨defect?.toList, seen'⟩ ∧
      (∀ d, defect? = some d ↔ FirstDefect s schema c (· ∈ seen) d) ∧
      (defect? = none → c.components = []) ∧ MetAfter seen c seen') ∨
    ∃ scope seen',
      check s.lookup false schema c seen = checkAll s.lookup false scope c.components seen' ∧
      (∀ d, ¬ FirstDefect s schema c (· ∈ seen) d) ∧ Opens s schema c scope ∧
      MetAfter seen c seen' := by
  -- the faults in the order in which a check looks for them
  cases hkey : usableKey? c.key with
  | none =>
      exact Or.inl ⟨some _, seen, check_unusable h hkey, fun d => (FirstDefect.missing hkey).eq_some_iff,
        nofun, metAfter_of_none hkey⟩
  | some key =>
      by_cases hseen : key ∈ seen
      · exact Or.inl ⟨some _, seen, check_repeated h hkey hseen,
          fun d => (FirstDefect.repeated hkey hseen).eq_some_iff, nofun, metAfter_of_mem hkey hseen⟩
      have hmet : MetAfter seen c (key :: seen) := metAfter_cons hkey
      cases hkind : schema.kind? (Text.lastSegment key) with
      | none =>
          exact Or.inl ⟨some _, _, check_unknown h hkey hseen hkind,
            fun d => (FirstDefect.unknown hkey hseen hkind).eq_some_iff, nofun, hmet⟩
      | some kind =>
          by_cases hleaf : c.components = []
          · have hfine : ∀ d, ¬ FirstDefect s schema c (· ∈ seen) d := by
              intro d hd
              cases hd <;> simp_all
            exact Or.inl ⟨none, _, check_leaf h hkey hseen hkind hleaf,
              fun d => iff_of_false nofun (hfine d), fun _ => hleaf, hmet⟩
          cases htarget : kind.target? with
          | none =>
              exact Or.inl ⟨some _, _, check_scalar h hkey hseen hkind hleaf htarget,
                fun d => (FirstDefect.noParent hkey hseen hkind hleaf htarget).eq_some_iff, nofun, hmet⟩
          | some target =>
              cases hstored : s.get? target with
              | none =>
                  exact Or.inl ⟨some _, _, check_dangling h hkey hseen hkind hleaf htarget hstored,
                    fun d =>
                      (FirstDefect.dangling hkey hseen hkind hleaf htarget hstored).eq_some_iff,
                    nofun, hmet⟩
              | some inner =>
                  refine Or.inr ⟨inner, _, check_reference h rfl hkey hseen hkind hleaf htarget hstored,
                    fun d hd => ?_, ?_, hmet⟩
                  · cases hd <;> simp_all
                  · exact (opens_reference_iff h (usableKey?_eq_some_iff.1 hkey).1 hkind htarget
                      hstored).2 rfl

end Input

/-! ## Tours -/

/-- A component that takes input as a check comes to it: its place, the schema in scope, the keys
met before, and the defect that is raised there. -/
structure Visit where
  place : Place
  component : FormComponent
  scope : Schema
  met : List String
  defect? : Option FormDefect

/-- A visit below a component, as seen from the parent of the component at a position. -/
def Visit.below (i : Nat) (v : Visit) : Visit := { v with place := i :: v.place }

/-- The visits of some components, the first of them standing at a position, and of those below
them, with the keys met before and after. Below a component with a defect nothing is visited. -/
inductive Tours (s : Store) :
    Schema → List FormComponent → Nat → List String → List Visit → List String → Prop
  | nil {schema : Schema} {i : Nat} {seen : List String} : Tours s schema [] i seen [] seen
  | layout {schema : Schema} {c : FormComponent} {rest : List FormComponent} {i : Nat}
      {seen seen₁ seen₂ : List String} {inner later : List Visit} (hinput : c.input = false)
      (hbelow : Tours s schema c.components 0 seen inner seen₁)
      (hrest : Tours s schema rest (i + 1) seen₁ later seen₂) :
      Tours s schema (c :: rest) i seen (inner.map (Visit.below i) ++ later) seen₂
  | settled {schema : Schema} {c : FormComponent} {rest : List FormComponent} {i : Nat}
      {seen seen₁ seen₂ : List String} {defect? : Option FormDefect} {later : List Visit}
      (hinput : c.input = true)
      (hdefect : ∀ d, defect? = some d ↔ FirstDefect s schema c (· ∈ seen) d)
      (hleaf : defect? = none → c.components = []) (hmet : MetAfter seen c seen₁)
      (hrest : Tours s schema rest (i + 1) seen₁ later seen₂) :
      Tours s schema (c :: rest) i seen
        ([⟨[], c, schema, seen, defect?⟩].map (Visit.below i) ++ later) seen₂
  | opened {schema scope : Schema} {c : FormComponent} {rest : List FormComponent} {i : Nat}
      {seen seen₁ seen₂ seen₃ : List String} {inner later : List Visit} (hinput : c.input = true)
      (hfine : ∀ d, ¬ FirstDefect s schema c (· ∈ seen) d) (hopens : Opens s schema c scope)
      (hmet : MetAfter seen c seen₁) (hbelow : Tours s scope c.components 0 seen₁ inner seen₂)
      (hrest : Tours s schema rest (i + 1) seen₂ later seen₃) :
      Tours s schema (c :: rest) i seen
        ((⟨[], c, schema, seen, none⟩ :: inner).map (Visit.below i) ++ later) seen₃

section Tour

variable {s : Store}

theorem filterMap_defect?_below (i : Nat) (visits : List Visit) :
    (visits.map (Visit.below i)).filterMap Visit.defect? = visits.filterMap Visit.defect? := by
  rw [List.filterMap_map]
  rfl

/-- A check makes a tour, and finds the defects on it in their order. -/
theorem exists_tours (components : List FormComponent) : ∀ schema i seen, ∃ visits seen',
    Tours s schema components i seen visits seen' ∧
      checkAll s.lookup false schema components seen =
        .ok ⟨visits.filterMap Visit.defect?, seen'⟩ := by
  induction components using forestInduction with
  | nil => exact fun schema i seen => ⟨[], seen, .nil, rfl⟩
  | cons c rest ihbelow ihrest =>
      intro schema i seen
      -- each way of going on at the component leaves some group of visits before the rest
      have hgroup : ∀ {group : List Visit} {seen₁ seen₂ : List String} {later : List Visit},
          check s.lookup false schema c seen = .ok ⟨group.filterMap Visit.defect?, seen₁⟩ →
          checkAll s.lookup false schema rest seen₁ = .ok ⟨later.filterMap Visit.defect?, seen₂⟩ →
          checkAll s.lookup false schema (c :: rest) seen =
            .ok ⟨(group.map (Visit.below i) ++ later).filterMap Visit.defect?, seen₂⟩ := by
        intro group seen₁ seen₂ later hcheck hlater
        rw [List.filterMap_append, filterMap_defect?_below]
        exact checkAll_cons hcheck hlater
      cases hinput : c.input with
      | false =>
          obtain ⟨inner, seen₁, htour, hfound⟩ := ihbelow schema 0 seen
          obtain ⟨later, seen₂, hlater, hrest⟩ := ihrest schema (i + 1) seen₁
          refine ⟨_, seen₂, .layout hinput htour hlater, hgroup ?_ hrest⟩
          rw [check_layout hinput rfl, hfound]
      | true =>
          rcases check_input_cases s schema seen hinput with
            ⟨defect?, seen₁, hcheck, hdefect, hleaf, hmet⟩ | ⟨scope, seen₁, hcheck, hfine, hopens, hmet⟩
          · obtain ⟨later, seen₂, hlater, hrest⟩ := ihrest schema (i + 1) seen₁
            refine ⟨_, seen₂, .settled hinput hdefect hleaf hmet hlater, hgroup ?_ hrest⟩
            rw [hcheck]
            cases defect? with
            | none => rfl
            | some d => rfl
          · obtain ⟨inner, seen₂, htour, hfound⟩ := ihbelow scope 0 seen₁
            obtain ⟨later, seen₃, hlater, hrest⟩ := ihrest schema (i + 1) seen₂
            refine ⟨_, seen₃, .opened hinput hfine hopens hmet htour hlater, hgroup ?_ hrest⟩
            rw [hcheck, hfound]
            rfl

end Tour

/-! ## The order of visits -/

/-- A place lies above another one on the way to it. -/
def Above (above place : Place) : Prop := above <+: place ∧ above ≠ place

theorem nil_above_cons (i : Nat) (place : Place) : Above [] (i :: place) := by
  constructor
  · exact List.nil_prefix
  · exact (List.cons_ne_nil i place).symm

theorem above_cons_iff {i j : Nat} {above place : Place} :
    Above (i :: above) (j :: place) ↔ i = j ∧ Above above place := by
  rw [Above, Above, List.cons_prefix_cons]
  constructor
  · rintro ⟨⟨rfl, hle⟩, hne⟩
    exact ⟨rfl, hle, fun heq => hne (by rw [heq])⟩
  · rintro ⟨rfl, hle, hne⟩
    exact ⟨⟨rfl, hle⟩, fun heq => hne (List.cons.inj heq).2⟩

/-- What lies above a place comes before it in document order. -/
theorem Above.lt {above place : Place} (h : Above above place) : above < place := by
  obtain ⟨⟨below, rfl⟩, hne⟩ := h
  induction above with
  | nil =>
      cases below with
      | nil => exact absurd rfl hne
      | cons i below => exact List.nil_lt_cons i below
  | cons i above ih =>
      refine List.cons_lt_cons_iff.2 (Or.inr ⟨rfl, ih fun heq => hne ?_⟩)
      rw [List.cons_append, ← heq]

/-- Every visit is made at a position or behind it. -/
def StartFrom (i : Nat) (visits : List Visit) : Prop :=
  ∀ v ∈ visits, ∃ j place, v.place = j :: place ∧ i ≤ j

/-- A visit is made before another one, which does not lie beneath a defect of the first. -/
def Visit.Precedes (w v : Visit) : Prop :=
  w.place < v.place ∧ (w.defect? ≠ none → ¬ Above w.place v.place)

theorem StartFrom.append {i : Nat} {later : List Visit} (h : StartFrom (i + 1) later)
    (group : List Visit) : StartFrom i (group.map (Visit.below i) ++ later) := by
  intro v hv
  rcases List.mem_append.1 hv with hv | hv
  · obtain ⟨w, -, rfl⟩ := List.mem_map.1 hv
    exact ⟨i, w.place, rfl, Nat.le_refl i⟩
  · obtain ⟨j, place, hplace, hle⟩ := h v hv
    exact ⟨j, place, hplace, by omega⟩

theorem Visit.Precedes.below {w v : Visit} (h : w.Precedes v) (i : Nat) :
    (w.below i).Precedes (v.below i) := by
  refine ⟨List.cons_lt_cons_iff.2 (Or.inr ⟨rfl, h.1⟩), fun hdefect habove => ?_⟩
  exact h.2 hdefect (above_cons_iff.1 habove).2

/-- The visits at a component and below it come before those at its later siblings. -/
theorem precedes_append {i : Nat} {group later : List Visit} (hgroup : group.Pairwise Visit.Precedes)
    (hlater : later.Pairwise Visit.Precedes) (hstart : StartFrom (i + 1) later) :
    (group.map (Visit.below i) ++ later).Pairwise Visit.Precedes := by
  rw [List.pairwise_append, List.pairwise_map]
  refine ⟨hgroup.imp fun h => h.below i, hlater, fun w hw v hv => ?_⟩
  obtain ⟨w, -, rfl⟩ := List.mem_map.1 hw
  obtain ⟨j, place, hplace, hle⟩ := hstart v hv
  have hlt : i < j := by omega
  unfold Visit.Precedes
  rw [hplace]
  refine ⟨List.cons_lt_cons_iff.2 (Or.inl hlt), fun _ habove => ?_⟩
  exact absurd (above_cons_iff.1 habove).1 (Nat.ne_of_lt hlt)

section Tour

variable {s : Store} {schema : Schema} {components : List FormComponent} {i : Nat}
  {seen seen' : List String} {visits : List Visit}

theorem Tours.startFrom (h : Tours s schema components i seen visits seen') :
    StartFrom i visits := by
  induction h with
  | nil => exact List.forall_mem_nil _
  | layout _ _ _ _ ihrest => exact ihrest.append _
  | settled _ _ _ _ _ ihrest => exact ihrest.append _
  | opened _ _ _ _ _ _ _ ihrest => exact ihrest.append _

/-- The visits of a tour come in document order, and none lies beneath a defect. -/
theorem Tours.precedes (h : Tours s schema components i seen visits seen') :
    visits.Pairwise Visit.Precedes := by
  induction h with
  | nil => exact List.Pairwise.nil
  | layout _ _ hrest ihbelow ihrest => exact precedes_append ihbelow ihrest hrest.startFrom
  | settled _ _ _ _ hrest ihrest =>
      exact precedes_append (List.pairwise_singleton _ _) ihrest hrest.startFrom
  | opened _ _ _ _ hbelow hrest ihbelow ihrest =>
      refine precedes_append (List.pairwise_cons.2 ⟨fun v hv => ?_, ihbelow⟩) ihrest hrest.startFrom
      -- the component lies above all that is visited below it, but has no defect
      obtain ⟨j, place, hplace, -⟩ := hbelow.startFrom v hv
      refine ⟨?_, fun hdefect => absurd rfl hdefect⟩
      rw [hplace]
      exact List.nil_lt_cons j place

/-! ## What stands at a visit -/

/-- The schema in scope at a place below a root: that of the root at the top, and further down the
one that the components on the way open. -/
inductive ScopeAt (s : Store) : Schema → FormComponent → Place → Schema → Prop
  | top {schema : Schema} {root : FormComponent} {i : Nat} : ScopeAt s schema root [i] schema
  | under {schema inner scope : Schema} {root c : FormComponent} {i : Nat} {place : Place}
      (hat : root.components[i]? = some c) (hopens : Opens s schema c inner)
      (hscope : ScopeAt s inner c place scope) : ScopeAt s schema root (i :: place) scope

/-- A visit is made at the component that stands at its place, which takes input, with the schema
in scope there, and its defect is the first one. -/
structure Visit.Made (s : Store) (schema : Schema) (root : FormComponent) (v : Visit) : Prop where
  component : root.at? v.place = some v.component
  input : v.component.input = true
  scope : ScopeAt s schema root v.place v.scope
  defect : ∀ d, v.defect? = some d ↔ FirstDefect s v.scope v.component (· ∈ v.met) d

theorem Visit.Made.below {v : Visit} {inner : Schema} {root c : FormComponent}
    (h : v.Made s inner c) (hat : root.components[i]? = some c) (hopens : Opens s schema c inner) :
    (v.below i).Made s schema root where
  component := (at?_cons hat v.place).trans h.component
  input := h.input
  scope := .under hat hopens h.scope
  defect := h.defect

/-- The visits of the components from a position on are made at that position or behind it. -/
theorem Tours.made (h : Tours s schema components i seen visits seen') :
    ∀ root : FormComponent, root.components.drop i = components →
      ∀ v ∈ visits, v.Made s schema root := by
  -- a visit at a component itself stands at the position of the component
  have hown : ∀ {schema : Schema} {c root : FormComponent} {i : Nat} {seen : List String}
      {defect? : Option FormDefect}, root.components[i]? = some c → c.input = true →
      (∀ d, defect? = some d ↔ FirstDefect s schema c (· ∈ seen) d) →
      (Visit.below i ⟨[], c, schema, seen, defect?⟩).Made s schema root := by
    intro schema c root i seen defect? hat hinput hdefect
    exact ⟨at?_cons hat [], hinput, .top, hdefect⟩
  induction h with
  | nil => exact fun _ _ => List.forall_mem_nil _
  | layout hinput _ _ ihbelow ihrest =>
      intro root hdrop v hv
      obtain ⟨hat, hrest⟩ := components_of_drop hdrop
      rcases List.mem_append.1 hv with hv | hv
      · obtain ⟨w, hw, rfl⟩ := List.mem_map.1 hv
        exact (ihbelow _ rfl w hw).below hat ((opens_layout_iff hinput).2 rfl)
      · exact ihrest root hrest v hv
  | settled hinput hdefect _ _ _ ihrest =>
      intro root hdrop v hv
      obtain ⟨hat, hrest⟩ := components_of_drop hdrop
      rcases List.mem_append.1 hv with hv | hv
      · rw [List.mem_singleton.1 hv]
        exact hown hat hinput hdefect
      · exact ihrest root hrest v hv
  | opened hinput hfine hopens _ _ _ ihbelow ihrest =>
      intro root hdrop v hv
      obtain ⟨hat, hrest⟩ := components_of_drop hdrop
      rcases List.mem_append.1 hv with hv | hv
      · obtain ⟨w, hw, rfl⟩ := List.mem_map.1 hv
        rcases List.mem_cons.1 hw with rfl | hw
        · exact hown hat hinput fun d => iff_of_false nofun (hfine d)
        · exact (ihbelow _ rfl w hw).below hat hopens
      · exact ihrest root hrest v hv

/-! ## Which components are visited -/

/-- A component that takes input stands at a place below a root. -/
def InputAt (root : FormComponent) (place : Place) : Prop :=
  place ≠ [] ∧ ∃ c, root.at? place = some c ∧ c.input = true

theorem Visit.Made.inputAt {root : FormComponent} {v : Visit} (h : v.Made s schema root)
    (hne : v.place ≠ []) : root.InputAt v.place :=
  ⟨hne, v.component, h.component, h.input⟩

theorem inputAt_cons_iff {root c : FormComponent} {i : Nat} {place : Place}
    (hat : root.components[i]? = some c) :
    root.InputAt (i :: place) ↔ ∃ d, c.at? place = some d ∧ d.input = true := by
  rw [InputAt, at?_cons hat]
  exact and_iff_right (List.cons_ne_nil i place)

/-- What is visited at a component and below it, and at the later components, is visited. -/
theorem exists_visit_append {root c : FormComponent} {i : Nat} {group later : List Visit}
    (hat : root.components[i]? = some c)
    (hgroup : ∀ place, (∃ d, c.at? place = some d ∧ d.input = true) →
      (∀ v ∈ group, v.defect? ≠ none → ¬ Above v.place place) → ∃ v ∈ group, v.place = place)
    (hlater : ∀ j place, i + 1 ≤ j → root.InputAt (j :: place) →
      (∀ v ∈ later, v.defect? ≠ none → ¬ Above v.place (j :: place)) →
      ∃ v ∈ later, v.place = j :: place) :
    ∀ j place, i ≤ j → root.InputAt (j :: place) →
      (∀ v ∈ group.map (Visit.below i) ++ later, v.defect? ≠ none → ¬ Above v.place (j :: place)) →
      ∃ v ∈ group.map (Visit.below i) ++ later, v.place = j :: place := by
  intro j place hle hinput hclear
  rcases Nat.eq_or_lt_of_le hle with rfl | hlt
  · obtain ⟨v, hv, rfl⟩ := hgroup place ((inputAt_cons_iff hat).1 hinput) fun w hw hdefect habove =>
      hclear _ (List.mem_append_left _ (List.mem_map_of_mem hw)) hdefect
        (above_cons_iff.2 ⟨rfl, habove⟩)
    exact ⟨v.below i, List.mem_append_left _ (List.mem_map_of_mem hv), rfl⟩
  · obtain ⟨v, hv, hplace⟩ := hlater j place hlt hinput fun w hw =>
      hclear w (List.mem_append_right _ hw)
    exact ⟨v, List.mem_append_right _ hv, hplace⟩

/-- Every component that takes input is visited, unless it lies beneath a defect. -/
theorem Tours.complete (h : Tours s schema components i seen visits seen') :
    ∀ root : FormComponent, root.components.drop i = components →
      ∀ j place, i ≤ j → root.InputAt (j :: place) →
        (∀ v ∈ visits, v.defect? ≠ none → ¬ Above v.place (j :: place)) →
        ∃ v ∈ visits, v.place = j :: place := by
  induction h with
  | nil =>
      intro root hdrop j place hle hinput
      -- no component stands so far behind
      have hnone : root.components[j]? = none :=
        List.getElem?_eq_none ((List.drop_eq_nil_iff.1 hdrop).trans hle)
      obtain ⟨-, c, hat, -⟩ := hinput
      rw [at?, hnone] at hat
      cases hat
  | layout hinput _ _ ihbelow ihrest =>
      intro root hdrop
      obtain ⟨hat, hrest⟩ := components_of_drop hdrop
      refine exists_visit_append hat ?_ (ihrest root hrest)
      rintro (_ | ⟨k, place⟩) hd hclear
      · obtain ⟨d, hself, hd⟩ := hd
        cases hself
        rw [hinput] at hd
        cases hd
      · exact ihbelow _ rfl k place (Nat.zero_le k) ⟨List.cons_ne_nil k place, hd⟩ hclear
  | @settled schema c rest i seen _ _ defect? later hinput hdefect hleaf _ _ ihrest =>
      intro root hdrop
      obtain ⟨hat, hrest⟩ := components_of_drop hdrop
      refine exists_visit_append hat ?_ (ihrest root hrest)
      rintro (_ | ⟨k, place⟩) hd hclear
      · exact ⟨_, List.mem_singleton_self _, rfl⟩
      · -- below a component that is settled there is a defect above, or nothing at all
        cases hnone : defect? with
        | some d =>
            refine absurd (nil_above_cons k place) (hclear _ (List.mem_singleton_self _) ?_)
            rw [hnone]
            exact Option.some_ne_none d
        | none =>
            obtain ⟨d, hd, -⟩ := hd
            rw [at?, hleaf hnone] at hd
            cases hd
  | opened _ _ _ _ _ _ ihbelow ihrest =>
      intro root hdrop
      obtain ⟨hat, hrest⟩ := components_of_drop hdrop
      refine exists_visit_append hat ?_ (ihrest root hrest)
      rintro (_ | ⟨k, place⟩) hd hclear
      · exact ⟨_, List.mem_cons_self, rfl⟩
      · obtain ⟨v, hv, hplace⟩ := ihbelow _ rfl k place (Nat.zero_le k)
          ⟨List.cons_ne_nil k place, hd⟩ fun w hw => hclear w (List.mem_cons_of_mem _ hw)
        exact ⟨v, List.mem_cons_of_mem _ hv, hplace⟩

/-! ## What was met before a visit -/

/-- The key of a visit, if it is usable. -/
def Visit.key? (v : Visit) : Option String := usableKey? v.component.key

/-- At the first visit are met the keys met before, and each visit adds its own for those that
come after it. -/
inductive Meets : List String → List Visit → List String → Prop
  | nil {seen : List String} : Meets seen [] seen
  | cons {v : Visit} {rest : List Visit} {seen₁ seen' : List String}
      (hafter : MetAfter v.met v.component seen₁) (hrest : Meets seen₁ rest seen') :
      Meets v.met (v :: rest) seen'

theorem Meets.append {seen₁ : List String} {first later : List Visit}
    (hfirst : Meets seen first seen₁) (hlater : Meets seen₁ later seen') :
    Meets seen (first ++ later) seen' := by
  induction hfirst with
  | nil => exact hlater
  | cons hafter _ ih => exact .cons hafter (ih hlater)

theorem Meets.map_below (h : Meets seen visits seen') (i : Nat) :
    Meets seen (visits.map (Visit.below i)) seen' := by
  induction h with
  | nil => exact .nil
  | @cons v _ _ _ hafter _ ih => exact .cons (v := v.below i) hafter ih

/-- Along a tour the keys are met one after the other. -/
theorem Tours.meets (h : Tours s schema components i seen visits seen') :
    Meets seen visits seen' := by
  induction h with
  | nil => exact .nil
  | layout _ _ _ ihbelow ihrest => exact (ihbelow.map_below _).append ihrest
  | @settled schema c _ i seen _ _ defect? _ _ _ _ hmet _ ihrest =>
      have hown : Meets seen [⟨[], c, schema, seen, defect?⟩] _ :=
        .cons (v := ⟨[], c, schema, seen, defect?⟩) hmet .nil
      exact (hown.map_below i).append ihrest
  | @opened schema _ c _ i seen _ _ _ inner _ _ _ _ hmet _ _ ihbelow ihrest =>
      have hown : Meets seen (⟨[], c, schema, seen, none⟩ :: inner) _ :=
        .cons (v := ⟨[], c, schema, seen, none⟩) hmet ihbelow
      exact (hown.map_below i).append ihrest

/-- What counts as met at a visit are the keys met before all of them and those of the visits that
come earlier in document order. -/
theorem Meets.mem_met_iff (h : Meets seen visits seen') (hordered : visits.Pairwise Visit.Precedes) :
    ∀ v ∈ visits, ∀ key, key ∈ v.met ↔
      key ∈ seen ∨ ∃ w ∈ visits, w.place < v.place ∧ w.key? = some key := by
  induction h with
  | nil => exact List.forall_mem_nil _
  | @cons v rest seen₁ _ hafter _ ih =>
      obtain ⟨hfirst, hordered⟩ := List.pairwise_cons.1 hordered
      intro u hu key
      rcases List.mem_cons.1 hu with rfl | hu
      · -- no visit comes before the first
        refine ⟨Or.inl, ?_⟩
        rintro (hseen | ⟨w, hw, hlt, -⟩)
        · exact hseen
        · rcases List.mem_cons.1 hw with rfl | hw
          · exact absurd hlt (List.lt_irrefl _)
          · exact absurd hlt (List.lt_asymm (hfirst w hw).1)
      · rw [ih hordered u hu key, hafter key, or_assoc]
        refine or_congr_right ?_
        constructor
        · rintro (hkey | ⟨w, hw, hlt, hkey⟩)
          · exact ⟨v, List.mem_cons_self, (hfirst u hu).1, hkey⟩
          · exact ⟨w, List.mem_cons_of_mem v hw, hlt, hkey⟩
        · rintro ⟨w, hw, hlt, hkey⟩
          rcases List.mem_cons.1 hw with rfl | hw
          · exact Or.inl hkey
          · exact Or.inr ⟨w, hw, hlt, hkey⟩

/-! ## How often a key is told to be repeated -/

theorem count_filterMap_cons_of_ne {v : Visit} {rest : List Visit} {d : FormDefect}
    (h : v.defect? ≠ some d) :
    ((v :: rest).filterMap Visit.defect?).count d = (rest.filterMap Visit.defect?).count d := by
  cases hdefect : v.defect? with
  | none => rw [List.filterMap_cons_none hdefect]
  | some d' =>
      rw [List.filterMap_cons_some hdefect, List.count_cons_of_ne]
      rintro rfl
      exact h hdefect

/-- A key that was met before is told to be repeated at each visit under it. -/
theorem Meets.count_of_mem (h : Meets seen visits seen') {key : String} (hseen : key ∈ seen)
    (hdefect : ∀ v ∈ visits,
      v.defect? = some (.duplicateKey key) ↔ v.key? = some key ∧ key ∈ v.met) :
    (visits.filterMap Visit.defect?).count (.duplicateKey key) =
      visits.countP fun v => v.key? = some key := by
  induction h with
  | nil => rfl
  | @cons v rest seen₁ _ hafter _ ih =>
      have hrest := ih ((hafter key).2 (Or.inl hseen)) fun w hw =>
        hdefect w (List.mem_cons_of_mem v hw)
      have hfirst := hdefect v List.mem_cons_self
      by_cases hkey : v.key? = some key
      · rw [List.filterMap_cons_some (hfirst.2 ⟨hkey, hseen⟩), List.count_cons_self, hrest,
          List.countP_cons_of_pos (by simpa using hkey)]
      · rw [count_filterMap_cons_of_ne fun h => hkey (hfirst.1 h).1, hrest,
          List.countP_cons_of_neg (by simpa using hkey)]

/-- A key that was not met before is told to be repeated at each visit under it but the first. -/
theorem Meets.count_of_notMem (h : Meets seen visits seen') {key : String} (hseen : key ∉ seen)
    (hdefect : ∀ v ∈ visits,
      v.defect? = some (.duplicateKey key) ↔ v.key? = some key ∧ key ∈ v.met) :
    (visits.filterMap Visit.defect?).count (.duplicateKey key) =
      (visits.countP fun v => v.key? = some key) - 1 := by
  induction h with
  | nil => rfl
  | @cons v rest seen₁ _ hafter hmeets ih =>
      have hrest : ∀ w ∈ rest, w.defect? = some (.duplicateKey key) ↔ w.key? = some key ∧ key ∈ w.met :=
        fun w hw => hdefect w (List.mem_cons_of_mem v hw)
      rw [count_filterMap_cons_of_ne fun h => hseen ((hdefect v List.mem_cons_self).1 h).2]
      by_cases hkey : v.key? = some key
      · -- the first visit under the key: from here on the key is met
        rw [List.countP_cons_of_pos (by simpa using hkey), Nat.add_sub_cancel]
        exact hmeets.count_of_mem ((hafter key).2 (Or.inr hkey)) hrest
      · have hseen₁ : key ∉ seen₁ := fun hmem => ((hafter key).1 hmem).elim hseen hkey
        rw [List.countP_cons_of_neg (by simpa using hkey)]
        exact ih hseen₁ hrest

end Tour

end FormComponent

end SchemaCatalog
