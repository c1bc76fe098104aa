import Mathlib.Data.List.Nodup
import SchemaCatalog.Proofs.Form.Checking
import SchemaCatalog.Proofs.Form.Scope
import SchemaCatalog.Proofs.Results

/-!
# When a form is valid

With the defects below hidden lists reported too, a form has no defect exactly when every
component in scope that takes input is bound and no two of them share a key, however deep
they stand (`validate_eq_nil_iff`). A check skips what stands below a component that it
cannot go past, but never without a defect (`check_of_not_ready`), and the keys it met
when it found none are all there are (`finds_checkAll`).
-/

set_option autoImplicit false

namespace SchemaCatalog

namespace FormComponent

/-! ## Clean components -/

section Clean

variable {s : Store} {schema : Schema}

/-- Components fit, and their keys are distinct and were not met before. -/
structure Clean (s : Store) (schema : Schema) (components : List FormComponent)
    (seen : List String) : Prop where
  fits : Fits s schema components
  nodup : (inputKeys components).Nodup
  fresh : ∀ key ∈ inputKeys components, key ∉ seen

theorem clean_nil (seen : List String) : Clean s schema [] seen where
  fits := fits_nil
  nodup := List.nodup_nil
  fresh := by
    intro key h
    cases h

/-- The components behind a clean one must be clean of its keys too. -/
theorem clean_cons_iff {c : FormComponent} {rest : List FormComponent} {seen : List String} :
    Clean s schema (c :: rest) seen ↔
      Clean s schema [c] seen ∧ Fits s schema rest ∧ (inputKeys rest).Nodup ∧
        ∀ key ∈ inputKeys rest, key ∉ inputKeys [c] ∧ key ∉ seen := by
  have hkeys := inputKeys_cons_eq_append c rest
  constructor
  · rintro ⟨hfits, hnodup, hfresh⟩
    rw [hkeys] at hnodup hfresh
    obtain ⟨hbound, hbelow, hrest⟩ := fits_cons_iff.1 hfits
    obtain ⟨hnodup₁, hnodup₂, hdisjoint⟩ := List.nodup_append.1 hnodup
    refine ⟨⟨fits_cons_iff.2 ⟨hbound, hbelow, fits_nil⟩, hnodup₁, ?_⟩, hrest, hnodup₂, ?_⟩
    · exact fun key hkey => hfresh key (List.mem_append_left _ hkey)
    · intro key hkey
      exact ⟨fun hin => hdisjoint key hin key hkey rfl,
        hfresh key (List.mem_append_right _ hkey)⟩
  · -- the rest is clean of the first keys, so all of them together are distinct
    rintro ⟨⟨hfits, hnodup, hfresh⟩, hrest, hnodup₂, hfresh₂⟩
    obtain ⟨hbound, hbelow, -⟩ := fits_cons_iff.1 hfits
    refine ⟨fits_cons_iff.2 ⟨hbound, hbelow, hrest⟩, ?_, ?_⟩
    · rw [hkeys, List.nodup_append]
      refine ⟨hnodup, hnodup₂, ?_⟩
      rintro key hkey _ hkey₂ rfl
      exact (hfresh₂ key hkey₂).1 hkey
    · rw [hkeys]
      intro key hkey
      rcases List.mem_append.1 hkey with hkey | hkey
      · exact hfresh key hkey
      · exact (hfresh₂ key hkey).2

end Clean

/-! ## What a check finds -/

section Check

variable {s : Store} {schema : Schema} {c : FormComponent} {seen : List String}

theorem clean_layout_iff (h : c.input = false) :
    Clean s schema [c] seen ↔ Clean s schema c.components seen := by
  have hkeys := inputKeys_layout h
  constructor
  · rintro ⟨hfits, hnodup, hfresh⟩
    exact ⟨(fits_layout_iff h).1 hfits, hkeys ▸ hnodup, hkeys ▸ hfresh⟩
  · rintro ⟨hfits, hnodup, hfresh⟩
    exact ⟨(fits_layout_iff h).2 hfits, hkeys ▸ hnodup, hkeys ▸ hfresh⟩

theorem clean_leaf {key : String} {kind : Kind} (h : c.input = true)
    (hkey : usableKey? c.key = some key) (hseen : key ∉ seen)
    (hkind : schema.kind? (Text.lastSegment key) = some kind) (hleaf : c.components = []) :
    Clean s schema [c] seen := by
  obtain ⟨hsome, hblank⟩ := usableKey?_eq_some_iff.1 hkey
  have hkeys : inputKeys [c] = [key] := by rw [inputKeys_bound h hsome, hleaf, inputKeys]
  refine ⟨fits_leaf ⟨key, kind, hsome, hblank, hkind, fun hne => absurd hleaf hne⟩ hleaf, ?_, ?_⟩
  · rw [hkeys, List.nodup_cons]
    exact ⟨List.not_mem_nil, List.nodup_nil⟩
  · rw [hkeys]
    intro k hk
    rw [List.mem_singleton.1 hk]
    exact hseen

/-- Below a reference, the key of the component bound to it counts as met. -/
theorem clean_reference_iff {key target : String} {kind : Kind} {inner : Schema}
    (h : c.input = true) (hkey : usableKey? c.key = some key) (hseen : key ∉ seen)
    (hkind : schema.kind? (Text.lastSegment key) = some kind)
    (htarget : kind.target? = some target) (hstored : s.get? target = some inner) :
    Clean s schema [c] seen ↔ Clean s inner c.components (key :: seen) := by
  obtain ⟨hsome, hblank⟩ := usableKey?_eq_some_iff.1 hkey
  have hkeys := inputKeys_bound h hsome
  have hfits := fits_reference_iff h hsome hblank hkind htarget hstored
  constructor
  · rintro ⟨hfit, hnodup, hfresh⟩
    rw [hkeys] at hnodup hfresh
    obtain ⟨hown, hnodup⟩ := List.nodup_cons.1 hnodup
    refine ⟨hfits.1 hfit, hnodup, ?_⟩
    intro k hk hin
    rcases List.mem_cons.1 hin with rfl | hin
    · exact hown hk
    · exact hfresh k (List.mem_cons_of_mem key hk) hin
  · rintro ⟨hfit, hnodup, hfresh⟩
    refine ⟨hfits.2 hfit, ?_, ?_⟩
    · rw [hkeys, List.nodup_cons]
      exact ⟨fun hk => hfresh key hk List.mem_cons_self, hnodup⟩
    · rw [hkeys]
      intro k hk
      rcases List.mem_cons.1 hk with rfl | hk
      · exact hseen
      · exact fun hin => hfresh k hk (List.mem_cons_of_mem key hin)

/-- What a part of a form leads to: findings without a defect exactly when the part is
fine, and then its keys are what was met on top of the keys met before. -/
def Finds (found : Except CatalogError Findings) (fine : Prop) (keys seen : List String) : Prop :=
  ∃ f, found = .ok f ∧ (f.defects = [] ↔ fine) ∧
    (fine → ∀ key, key ∈ f.seen ↔ key ∈ keys ∨ key ∈ seen)

/-- A part with a defect is not fine, whatever keys were met. -/
theorem finds_defect {fine : Prop} {keys seen seen' : List String} {d : FormDefect}
    (h : ¬ fine) : Finds (.ok ⟨[d], seen'⟩) fine keys seen :=
  ⟨_, rfl, iff_of_false (List.cons_ne_nil d []) h, fun hfine => absurd hfine h⟩

/-- What a check needs to go on at a component that takes input: a usable key that was not
met before and names a property, one that refers to a stored schema if components stand
below. -/
def Ready (s : Store) (schema : Schema) (c : FormComponent) (seen : List String) : Prop :=
  ∃ key kind, usableKey? c.key = some key ∧ key ∉ seen ∧
    schema.kind? (Text.lastSegment key) = some kind ∧
    (c.components ≠ [] → ∃ target below, kind.target? = some target ∧ s.get? target = some below)

/-- A clean component is ready, since its own key is among its keys. -/
theorem Clean.ready (h : c.input = true) (hclean : Clean s schema [c] seen) :
    Ready s schema c seen := by
  obtain ⟨key, kind, hkey, hblank, hkind, hbelow⟩ := (fits_cons_iff.1 hclean.fits).1 h
  refine ⟨key, kind, usableKey?_eq_some_iff.2 ⟨hkey, hblank⟩, ?_, hkind, hbelow⟩
  apply hclean.fresh
  rw [inputKeys_singleton, if_pos h, hkey]
  exact List.mem_append_left _ (List.mem_singleton.2 rfl)

/-- Where a check cannot go on it leaves one defect. -/
theorem check_of_not_ready (h : c.input = true) (hnot : ¬ Ready s schema c seen) :
    ∃ d seen', check s.lookup false schema c seen = .ok ⟨[d], seen'⟩ := by
  cases hkey : usableKey? c.key with
  | none => exact ⟨_, _, check_unusable h hkey⟩
  | some key =>
      by_cases hseen : key ∈ seen
      · exact ⟨_, _, check_repeated h hkey hseen⟩
      cases hkind : schema.kind? (Text.lastSegment key) with
      | none => exact ⟨_, _, check_unknown h hkey hseen hkind⟩
      | some kind =>
          by_cases hleaf : c.components = []
          · exact absurd ⟨key, kind, hkey, hseen, hkind, fun hsome => absurd hleaf hsome⟩ hnot
          cases htarget : kind.target? with
          | none => exact ⟨_, _, check_scalar h hkey hseen hkind hleaf htarget⟩
          | some target =>
              cases hstored : s.get? target with
              | none => exact ⟨_, _, check_dangling h hkey hseen hkind hleaf htarget hstored⟩
              | some inner =>
                  exact absurd ⟨key, kind, hkey, hseen, hkind,
                    fun _ => ⟨target, inner, htarget, hstored⟩⟩ hnot

/-- The keys met may be split between a part and what stood before it in any way. -/
theorem Finds.congr {found : Except CatalogError Findings} {fine fine' : Prop}
    {keys keys' seen seen' : List String} (hfine : fine ↔ fine')
    (hkeys : ∀ key, key ∈ keys ∨ key ∈ seen ↔ key ∈ keys' ∨ key ∈ seen')
    (h : Finds found fine keys seen) : Finds found fine' keys' seen' := by
  obtain ⟨f, hfound, hdefects, hseen⟩ := h
  refine ⟨f, hfound, hdefects.trans hfine, ?_⟩
  intro hfine' key
  rw [hseen (hfine.2 hfine') key]
  exact hkeys key

/-- What is found at one component, if the components below it are checked correctly. -/
theorem finds_check
    (ih : ∀ schema seen, Finds (checkAll s.lookup false schema c.components seen)
      (Clean s schema c.components seen) (inputKeys c.components) seen) :
    Finds (check s.lookup false schema c seen) (Clean s schema [c] seen) (inputKeys [c]) seen := by
  cases hinput : c.input with
  | false =>
      rw [check_layout hinput rfl]
      apply (ih schema seen).congr (clean_layout_iff hinput).symm
      intro key
      rw [inputKeys_layout hinput]
  | true =>
      -- a check that stops at the component says nothing of those below, but it has a defect
      by_cases hready : Ready s schema c seen
      · obtain ⟨key, kind, hkey, hseen, hkind, hbelow⟩ := hready
        have hkeys := inputKeys_bound hinput (usableKey?_eq_some_iff.1 hkey).1
        by_cases hleaf : c.components = []
        · -- nothing stands below: the key alone is met
          rw [check_leaf hinput hkey hseen hkind hleaf, hkeys, hleaf, inputKeys]
          refine ⟨_, rfl, iff_of_true rfl (clean_leaf hinput hkey hseen hkind hleaf), ?_⟩
          intro _ k
          rw [List.mem_cons, List.mem_singleton]
        · obtain ⟨target, inner, htarget, hstored⟩ := hbelow hleaf
          rw [check_reference hinput rfl hkey hseen hkind hleaf htarget hstored, hkeys]
          apply (ih inner (key :: seen)).congr
            (clean_reference_iff hinput hkey hseen hkind htarget hstored).symm
          intro k
          rw [List.mem_cons, List.mem_cons, or_left_comm, or_assoc]
      · obtain ⟨d, seen', hcheck⟩ := check_of_not_ready hinput hready
        rw [hcheck]
        exact finds_defect fun hclean => hready (hclean.ready hinput)

/-- What is found at some components and below them. -/
theorem finds_checkAll (components : List FormComponent) : ∀ schema seen,
    Finds (checkAll s.lookup false schema components seen) (Clean s schema components seen)
      (inputKeys components) seen := by
  induction components using forestInduction with
  | nil =>
      intro schema seen
      rw [checkAll]
      refine ⟨_, rfl, iff_of_true rfl (clean_nil seen), ?_⟩
      intro _ key
      rw [inputKeys]
      simp
  | cons c rest ihbelow ihrest =>
      intro schema seen
      have hcheck : Finds (check s.lookup false schema c seen) (Clean s schema [c] seen)
          (inputKeys [c]) seen := finds_check ihbelow
      obtain ⟨first, hfirst, hdefects₁, hseen₁⟩ := hcheck
      obtain ⟨later, hlater, hdefects₂, hseen₂⟩ := ihrest schema first.seen
      -- once the first component is clean, the keys met before the rest are its own on top
      have hsplit : Clean s schema (c :: rest) seen ↔
          Clean s schema [c] seen ∧ Clean s schema rest first.seen := by
        rw [clean_cons_iff]
        refine and_congr_right fun hclean => ?_
        constructor
        · rintro ⟨hfits, hnodup, hfresh⟩
          refine ⟨hfits, hnodup, ?_⟩
          intro key hkey hin
          rcases (hseen₁ hclean key).1 hin with hin | hin
          · exact (hfresh key hkey).1 hin
          · exact (hfresh key hkey).2 hin
        · rintro ⟨hfits, hnodup, hfresh⟩
          refine ⟨hfits, hnodup, ?_⟩
          intro key hkey
          have hnew := hfresh key hkey
          rw [hseen₁ hclean key, not_or] at hnew
          exact hnew
      refine ⟨_, checkAll_cons hfirst hlater, ?_, ?_⟩
      · rw [List.append_eq_nil_iff, hdefects₁, hdefects₂, hsplit]
      · intro hclean key
        obtain ⟨hclean₁, hclean₂⟩ := hsplit.1 hclean
        rw [hseen₂ hclean₂ key, hseen₁ hclean₁ key, inputKeys_cons_eq_append c rest, List.mem_append,
          or_left_comm, or_assoc]

end Check

/-! ## The verdict -/

section Verdict

variable {s : Store} {schema : Schema}

theorem validate_of_stored {key : String} (hkey : Text.isBlank key = false)
    (hstored : s.get? key = some schema) (root : FormComponent) :
    ∃ defects, root.validate s.lookup false key = .ok defects ∧
      (defects = [] ↔ Fits s schema root.components ∧ (inputKeys root.components).Nodup) := by
  obtain ⟨f, hfound, hdefects, -⟩ := finds_checkAll (s := s) root.components schema []
  refine ⟨f.defects, validate_of_checkAll hkey hstored hfound, ?_⟩
  rw [hdefects]
  constructor
  · exact fun hclean => ⟨hclean.fits, hclean.nodup⟩
  · exact fun ⟨hfits, hnodup⟩ => ⟨hfits, hnodup, fun _ _ => List.not_mem_nil⟩

/-- A form has no defect exactly when every component below its root has a schema in scope,
the components that take input are bound to it and no two of these share a key. Siblings
may then stand in any order. -/
theorem validate_eq_nil_iff (rule : KeyRule) (s : Store) {key : String} {schema : Schema}
    (hkey : Text.isBlank key = false) (hstored : s.get? key = some schema)
    (root : FormComponent) :
    let look := (Catalog.mk rule s .none).lookup
    (root.validate look false key = .ok [] ↔
        (∀ d, Below root.components d → ∃ scope, InScope s schema root.components scope d) ∧
        (∀ scope d, InScope s schema root.components scope d → d.input = true →
          BoundIn s scope d) ∧
        (inputKeys root.components).Nodup) ∧
      ∀ root' : FormComponent, Rearranged root.components root'.components →
        (root.validate look false key = .ok [] ↔ root'.validate look false key = .ok []) := by
  intro look
  have hverdict : ∀ root : FormComponent, root.validate look false key = .ok [] ↔
      Fits s schema root.components ∧ (inputKeys root.components).Nodup := by
    intro root
    obtain ⟨defects, hvalidate, hdefects⟩ := validate_of_stored hkey hstored root
    rw [show look = s.lookup from Catalog.lookup_of_answers rule s, hvalidate, ← hdefects,
      Except.ok.injEq]
  refine ⟨?_, ?_⟩
  · rw [hverdict]
    constructor
    · exact fun ⟨hfits, hnodup⟩ => ⟨fun d hd => hfits.exists_inScope hd, hfits, hnodup⟩
    · exact fun ⟨_, hfits, hnodup⟩ => ⟨hfits, hnodup⟩
  · intro root' hre
    rw [hverdict, hverdict, hre.fits_iff schema, hre.inputKeys_perm.nodup_iff]

/-- The component for the city stands in a layout below the one bound to the address, and
is judged by the schema of addresses. -/
theorem validate_nested_reference :
    let address : Schema := ⟨none, "Address", "", none, [⟨"city", .scalar .string, []⟩], [], 0⟩
    let person : Schema :=
      ⟨none, "Person", "", none, [⟨"name", .scalar .string, []⟩, ⟨"home", .reference "Address", []⟩], [], 0⟩
    let s := (Store.empty.put address).put person
    let root : FormComponent := .layoutOnly
      [.bound "home" [.layoutOnly [.bound "home.city" []]], .bound "name" []]
    let look := (Catalog.mk .default s .none).lookup
    root.validate look false "Person" = .ok [] ∧ (inputKeys root.components).Nodup ∧
      FormComponent.validate look false (.layoutOnly root.components.reverse) "Person" = .ok [] := by
  intro address person s root look
  have hvalid : root.validate look false "Person" = .ok [] := by decide +kernel
  have hstored : s.get? "Person" = some ((Store.empty.put address).stamp person) :=
    Keyed.get?_insert_self _ _ _
  have hverdict := validate_eq_nil_iff .default s (by decide +kernel) hstored root
  refine ⟨hvalid, (hverdict.1.1 hvalid).2.2, ?_⟩
  refine (hverdict.2 (.layoutOnly root.components.reverse) ?_).1 hvalid
  exact .swap _ _ _

end Verdict

end FormComponent

end SchemaCatalog
