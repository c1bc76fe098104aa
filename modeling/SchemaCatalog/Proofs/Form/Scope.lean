import Mathlib.Data.List.Perm.Basic
import SchemaCatalog.Form.Validation

/-!
# Components and the schema in scope

`InScope` says which schema is in scope at a component and `BoundIn` what a component that
takes input needs there. A form fits a schema when every component in scope that takes
input is bound (`Fits`). Neither this nor the keys of a form, taken together, depend on the
order of siblings (`Rearranged`).
-/

set_option autoImplicit false

namespace SchemaCatalog

namespace FormComponent

/-! ## Components below a place -/

/-- Induction over some components and, for each of them, the components below it. -/
theorem forestInduction {motive : List FormComponent → Prop} (nil : motive [])
    (cons : ∀ c rest, motive c.components → motive rest → motive (c :: rest)) :
    ∀ components, motive components
  | [] => nil
  | ⟨_, _, _, below, _, _, _⟩ :: rest =>
      cons _ rest (forestInduction nil cons below) (forestInduction nil cons rest)

mutual

/-- The keys of a component and of those below it, as far as they take input. -/
def inputKeysAt : FormComponent → List String
  | ⟨key, input, _, components, _, _, _⟩ =>
      (if input then key.toList else []) ++ inputKeys components

/-- The keys of the components that take input, at any depth and in document order. -/
def inputKeys : List FormComponent → List String
  | [] => []
  | c :: rest => inputKeysAt c ++ inputKeys rest

end

theorem inputKeys_cons (c : FormComponent) (rest : List FormComponent) :
    inputKeys (c :: rest) =
      (if c.input then c.key.toList else []) ++ inputKeys c.components ++ inputKeys rest := by
  obtain ⟨key, input, type, components, list, hidden, expressions⟩ := c
  rw [inputKeys, inputKeysAt]

theorem inputKeys_singleton (c : FormComponent) :
    inputKeys [c] = (if c.input then c.key.toList else []) ++ inputKeys c.components := by
  rw [inputKeys_cons, inputKeys, List.append_nil]

theorem inputKeys_cons_eq_append (c : FormComponent) (rest : List FormComponent) :
    inputKeys (c :: rest) = inputKeys [c] ++ inputKeys rest := by
  rw [inputKeys_singleton, inputKeys_cons]

theorem inputKeys_layout {c : FormComponent} (h : c.input = false) :
    inputKeys [c] = inputKeys c.components := by
  rw [inputKeys_singleton, if_neg (by rw [h]; exact Bool.false_ne_true), List.nil_append]

theorem inputKeys_bound {c : FormComponent} {key : String} (h : c.input = true)
    (hkey : c.key = some key) : inputKeys [c] = key :: inputKeys c.components := by
  rw [inputKeys_singleton, if_pos h, hkey, Option.toList_some, List.singleton_append]

/-! ## The schema in scope -/

section Scope

variable (s : Store)

/-- The schema that is in scope below a component: the same one below a component that
takes no input, else the target of the reference that the component is bound to. -/
def Opens (schema : Schema) (c : FormComponent) (below : Schema) : Prop :=
  if c.input then
    ∃ key kind target, c.key = some key ∧ schema.kind? (Text.lastSegment key) = some kind ∧
      kind.target? = some target ∧ s.get? target = some below
  else below = schema

/-- A component with its schema in scope, among some components and those below them. -/
inductive InScope : Schema → List FormComponent → Schema → FormComponent → Prop
  | here {schema : Schema} {components : List FormComponent} {c : FormComponent} :
      c ∈ components → InScope schema components schema c
  | under {schema inner scope : Schema} {components : List FormComponent} {c d : FormComponent} :
      c ∈ components → Opens s schema c inner → InScope inner c.components scope d →
        InScope schema components scope d

/-- A component is bound when its key is there, is not blank and names a property of the
schema, one that refers to a stored schema if components stand below. -/
def BoundIn (schema : Schema) (c : FormComponent) : Prop :=
  ∃ key kind, c.key = some key ∧ Text.isBlank key = false ∧
    schema.kind? (Text.lastSegment key) = some kind ∧
    (c.components ≠ [] → ∃ target below, kind.target? = some target ∧ s.get? target = some below)

/-- Every component in scope that takes input is bound. -/
def Fits (schema : Schema) (components : List FormComponent) : Prop :=
  ∀ scope d, InScope s schema components scope d → d.input = true → BoundIn s scope d

variable {s} {schema : Schema}

/-- A component that takes no input opens the schema that is in scope at it. -/
theorem opens_layout_iff {c : FormComponent} {inner : Schema} (h : c.input = false) :
    Opens s schema c inner ↔ inner = schema := by
  rw [Opens, if_neg (by rw [h]; exact Bool.false_ne_true)]

theorem opens_reference_iff {c : FormComponent} {inner below : Schema} {key target : String}
    {kind : Kind} (h : c.input = true) (hkey : c.key = some key)
    (hkind : schema.kind? (Text.lastSegment key) = some kind)
    (htarget : kind.target? = some target) (hstored : s.get? target = some inner) :
    Opens s schema c below ↔ below = inner := by
  rw [Opens, if_pos h]
  constructor
  · rintro ⟨_, _, _, hkey', hkind', htarget', hstored'⟩
    cases hkey.symm.trans hkey'
    cases hkind.symm.trans hkind'
    cases htarget.symm.trans htarget'
    cases hstored.symm.trans hstored'
    rfl
  · rintro rfl
    exact ⟨key, kind, target, hkey, hkind, htarget, hstored⟩

theorem fits_nil : Fits s schema [] := by
  intro scope d h
  cases h with
  | here hmem => cases hmem
  | under hmem _ _ => cases hmem

theorem fits_cons_iff {c : FormComponent} {rest : List FormComponent} :
    Fits s schema (c :: rest) ↔
      (c.input = true → BoundIn s schema c) ∧
        (∀ inner, Opens s schema c inner → Fits s inner c.components) ∧ Fits s schema rest := by
  constructor
  · intro h
    refine ⟨h schema c (.here List.mem_cons_self), ?_, ?_⟩
    · intro inner hopens scope d hd
      exact h scope d (.under List.mem_cons_self hopens hd)
    · intro scope d hd
      cases hd with
      | here hmem => exact h _ d (.here (List.mem_cons_of_mem c hmem))
      | under hmem hopens hbelow =>
          exact h scope d (.under (List.mem_cons_of_mem c hmem) hopens hbelow)
  · rintro ⟨hbound, hbelow, hrest⟩ scope d hd
    cases hd with
    | here hmem =>
        rcases List.mem_cons.1 hmem with rfl | hmem
        · exact hbound
        · exact hrest _ d (.here hmem)
    | under hmem hopens hd =>
        rcases List.mem_cons.1 hmem with rfl | hmem
        · exact hbelow _ hopens scope d hd
        · exact hrest scope d (.under hmem hopens hd)

theorem fits_layout_iff {c : FormComponent} (h : c.input = false) :
    Fits s schema [c] ↔ Fits s schema c.components := by
  rw [fits_cons_iff]
  constructor
  · rintro ⟨-, hbelow, -⟩
    exact hbelow schema ((opens_layout_iff h).2 rfl)
  · intro hbelow
    refine ⟨fun hinput => ?_, ?_, fits_nil⟩
    · rw [h] at hinput
      cases hinput
    · intro inner hopens
      rw [(opens_layout_iff h).1 hopens]
      exact hbelow

theorem fits_leaf {c : FormComponent} (hbound : BoundIn s schema c) (hleaf : c.components = []) :
    Fits s schema [c] := by
  refine fits_cons_iff.2 ⟨fun _ => hbound, ?_, fits_nil⟩
  intro inner _
  rw [hleaf]
  exact fits_nil

theorem fits_reference_iff {c : FormComponent} {inner : Schema} {key target : String}
    {kind : Kind} (h : c.input = true) (hkey : c.key = some key) (hblank : Text.isBlank key = false)
    (hkind : schema.kind? (Text.lastSegment key) = some kind)
    (htarget : kind.target? = some target) (hstored : s.get? target = some inner) :
    Fits s schema [c] ↔ Fits s inner c.components := by
  have hopens : ∀ below, Opens s schema c below ↔ below = inner :=
    fun below => opens_reference_iff h hkey hkind htarget hstored
  rw [fits_cons_iff]
  constructor
  · rintro ⟨-, hbelow, -⟩
    exact hbelow inner ((hopens inner).2 rfl)
  · intro hbelow
    refine ⟨fun _ => ⟨key, kind, hkey, hblank, hkind, fun _ => ⟨target, inner, htarget, hstored⟩⟩,
      ?_, fits_nil⟩
    intro below hbelow'
    rw [(hopens below).1 hbelow']
    exact hbelow

/-! ## Components at any depth -/

/-- Components at any depth: some components and those below them. -/
inductive Below : List FormComponent → FormComponent → Prop
  | here {components : List FormComponent} {c : FormComponent} :
      c ∈ components → Below components c
  | under {components : List FormComponent} {c d : FormComponent} :
      c ∈ components → Below c.components d → Below components d

theorem Below.ne_nil {components : List FormComponent} {d : FormComponent}
    (h : Below components d) : components ≠ [] := by
  cases h with
  | here hmem => exact List.ne_nil_of_mem hmem
  | under hmem _ => exact List.ne_nil_of_mem hmem

theorem below_cons_iff {c d : FormComponent} {rest : List FormComponent} :
    Below (c :: rest) d ↔ d = c ∨ Below c.components d ∨ Below rest d := by
  constructor
  · intro h
    cases h with
    | here hmem => exact (List.mem_cons.1 hmem).imp_right fun hmem => Or.inr (.here hmem)
    | under hmem hd =>
        rcases List.mem_cons.1 hmem with rfl | hmem
        · exact Or.inr (Or.inl hd)
        · exact Or.inr (Or.inr (.under hmem hd))
  · rintro (rfl | hd | hd)
    · exact .here List.mem_cons_self
    · exact .under List.mem_cons_self hd
    · cases hd with
      | here hmem => exact .here (List.mem_cons_of_mem c hmem)
      | under hmem hd => exact .under (List.mem_cons_of_mem c hmem) hd

theorem Fits.exists_opens {components : List FormComponent} {c : FormComponent}
    (hfits : Fits s schema components) (hmem : c ∈ components) (hsome : c.components ≠ []) :
    ∃ inner, Opens s schema c inner ∧ Fits s inner c.components := by
  have hbelow : ∀ inner, Opens s schema c inner → Fits s inner c.components :=
    fun inner hopens scope d hd => hfits scope d (.under hmem hopens hd)
  cases hinput : c.input with
  | false =>
      have hopens : Opens s schema c schema := (opens_layout_iff hinput).2 rfl
      exact ⟨schema, hopens, hbelow schema hopens⟩
  | true =>
      obtain ⟨key, kind, hkey, -, hkind, htarget⟩ := hfits schema c (.here hmem) hinput
      obtain ⟨target, inner, htarget, hstored⟩ := htarget hsome
      have hopens : Opens s schema c inner :=
        (opens_reference_iff hinput hkey hkind htarget hstored).2 rfl
      exact ⟨inner, hopens, hbelow inner hopens⟩

/-- Where every component in scope is bound, no component is left without a schema. -/
theorem Fits.exists_inScope {components : List FormComponent} {d : FormComponent}
    (hd : Below components d) :
    ∀ {schema}, Fits s schema components → ∃ scope, InScope s schema components scope d := by
  induction hd with
  | here hmem => exact fun _ => ⟨_, .here hmem⟩
  | under hmem hbelow ih =>
      intro schema hfits
      obtain ⟨inner, hopens, hinner⟩ := hfits.exists_opens hmem hbelow.ne_nil
      obtain ⟨scope, hscope⟩ := ih hinner
      exact ⟨scope, .under hmem hopens hscope⟩

end Scope

/-! ## The order of siblings -/

/-- Rearranged are components whose order differs at some level. -/
inductive Rearranged : List FormComponent → List FormComponent → Prop
  | nil : Rearranged [] []
  | cons (c : FormComponent) {below rest rest' : List FormComponent} :
      Rearranged c.components below → Rearranged rest rest' →
        Rearranged (c :: rest) ({ c with components := below } :: rest')
  | swap (c d : FormComponent) (rest : List FormComponent) :
      Rearranged (c :: d :: rest) (d :: c :: rest)
  | trans {a b c : List FormComponent} : Rearranged a b → Rearranged b c → Rearranged a c

namespace Rearranged

variable {a b : List FormComponent}

theorem eq_nil_iff (h : Rearranged a b) : a = [] ↔ b = [] := by
  induction h with
  | nil => exact Iff.rfl
  | cons c _ _ _ _ => exact iff_of_false (List.cons_ne_nil _ _) (List.cons_ne_nil _ _)
  | swap c d rest => exact iff_of_false (List.cons_ne_nil _ _) (List.cons_ne_nil _ _)
  | trans _ _ ih₁ ih₂ => exact ih₁.trans ih₂

theorem inputKeys_perm (h : Rearranged a b) : (inputKeys a).Perm (inputKeys b) := by
  induction h with
  | nil => exact List.Perm.refl _
  | cons c _ _ ihbelow ihrest =>
      rw [inputKeys_cons, inputKeys_cons]
      exact (ihbelow.append_left _).append ihrest
  | swap c d rest =>
      rw [inputKeys_cons_eq_append c (d :: rest), inputKeys_cons_eq_append d (c :: rest),
        inputKeys_cons_eq_append c rest, inputKeys_cons_eq_append d rest, ← List.append_assoc,
        ← List.append_assoc]
      exact List.perm_append_comm.append_right _
  | trans _ _ ih₁ ih₂ => exact ih₁.trans ih₂

theorem fits_iff {s : Store} (h : Rearranged a b) :
    ∀ schema, Fits s schema a ↔ Fits s schema b := by
  induction h with
  | nil => exact fun _ => Iff.rfl
  | cons c hbelow _ ihbelow ihrest =>
      intro schema
      -- a component opens the same schema, and is bound to the same, whatever stands below it
      have hbound : ∀ {below}, Rearranged c.components below →
          (BoundIn s schema c ↔ BoundIn s schema { c with components := below }) := by
        intro below hre
        unfold BoundIn
        simp only [ne_eq, hre.eq_nil_iff]
      rw [fits_cons_iff, fits_cons_iff, ← hbound hbelow, ihrest schema]
      refine and_congr_right fun _ => and_congr_left fun _ => ?_
      exact forall_congr' fun inner => imp_congr_right fun _ => ihbelow inner
  | swap c d rest =>
      intro schema
      -- a component fits by itself, whichever components stand beside it
      rw [fits_cons_iff, fits_cons_iff, fits_cons_iff, fits_cons_iff]
      tauto
  | trans _ _ ih₁ ih₂ => exact fun schema => (ih₁ schema).trans (ih₂ schema)

end Rearranged

end FormComponent

end SchemaCatalog
