import SchemaCatalog.Proofs.Form.Checking
import SchemaCatalog.Proofs.Text.Dotted

/-!
# Faults of single paths

A path is walked segment by segment, each of which has to name a property of the schema
reached so far; all but the last have to lead on to a stored schema. `firstFault` is the
first place where a path fails. One step of the walk agrees with what the check of a form
does at a component that is bound to the path so far (`check_bound`).
-/

set_option autoImplicit false

namespace SchemaCatalog

/-- A fault of a path: the segments up to the first that fails, and what is wrong there. -/
structure PathFault where
  upTo : List String
  defect : FormDefect
deriving DecidableEq, Repr

/-- Where one segment of a path leads. -/
inductive SegmentStep where
  | fails (defect : FormDefect)
  /-- The segment is the last one and names a property. -/
  | ends
  | enters (inner : Schema)

namespace SegmentStep

/-- Where a segment leads from the schema reached before it; `more` says whether other
segments follow. -/
def walk (s : Store) (schema : Schema) (before : List String) (segment : String) (more : Bool) :
    SegmentStep :=
  let key := Text.dotted (before ++ [segment])
  if before = [] ∧ Text.isBlank segment = true then .fails .missingKey
  else match schema.kind? segment with
    | none => .fails (.notInSchema key schema.key)
    | some kind =>
        if !more then .ends
        else match kind.target? with
          | none => .fails (.notAParent key)
          | some target =>
              match s.get? target with
              | none => .fails (.targetNotFound key target)
              | some inner => .enters inner

end SegmentStep

namespace PathFault

/-- The first fault of some segments, walked from a schema that others led to. -/
def first? (s : Store) (schema : Schema) (before : List String) : List String → Option PathFault
  | [] => none
  | segment :: rest =>
      match SegmentStep.walk s schema before segment (!rest.isEmpty) with
      | .fails defect => some ⟨before ++ [segment], defect⟩
      | .ends => none
      | .enters inner => first? s inner (before ++ [segment]) rest

/-- The first fault of a dotted path on a schema; none if the path resolves. -/
def ofPath? (s : Store) (schema : Schema) (path : String) : Option PathFault :=
  first? s schema [] (Text.segments path)

end PathFault

/-! ## One step -/

namespace SegmentStep

variable {s : Store} {schema : Schema} {before : List String} {segment : String}

theorem walk_blank {more : Bool} (h : before = [] ∧ Text.isBlank segment = true) :
    walk s schema before segment more = .fails .missingKey := if_pos h

variable (h : ¬ (before = [] ∧ Text.isBlank segment = true))

include h

theorem walk_unknown {more : Bool} (hkind : schema.kind? segment = none) :
    walk s schema before segment more =
      .fails (.notInSchema (Text.dotted (before ++ [segment])) schema.key) := by
  rw [walk, if_neg h, hkind]

variable {kind : Kind} (hkind : schema.kind? segment = some kind)

include hkind

theorem walk_last : walk s schema before segment false = .ends := by
  rw [walk, if_neg h, hkind]
  rfl

theorem walk_scalar (htarget : kind.target? = none) :
    walk s schema before segment true =
      .fails (.notAParent (Text.dotted (before ++ [segment]))) := by
  simp only [walk, if_neg h, hkind, htarget, Bool.not_true, Bool.false_eq_true, if_false]

theorem walk_dangling {target : String} (htarget : kind.target? = some target)
    (hstored : s.get? target = none) :
    walk s schema before segment true =
      .fails (.targetNotFound (Text.dotted (before ++ [segment])) target) := by
  simp only [walk, if_neg h, hkind, htarget, hstored, Bool.not_true, Bool.false_eq_true, if_false]

theorem walk_reference {target : String} {inner : Schema} (htarget : kind.target? = some target)
    (hstored : s.get? target = some inner) :
    walk s schema before segment true = .enters inner := by
  simp only [walk, if_neg h, hkind, htarget, hstored, Bool.not_true, Bool.false_eq_true, if_false]

omit h hkind

/-- A segment fails whatever follows it, or a path may end with it. -/
theorem walk_fails_or_ends (s : Store) (schema : Schema) (before : List String)
    (segment : String) :
    (∃ defect, ∀ more, walk s schema before segment more = .fails defect) ∨
      walk s schema before segment false = .ends := by
  by_cases hblank : before = [] ∧ Text.isBlank segment = true
  · exact Or.inl ⟨_, fun _ => walk_blank hblank⟩
  · cases hkind : schema.kind? segment with
    | none => exact Or.inl ⟨_, fun _ => walk_unknown hblank hkind⟩
    | some kind => exact Or.inr (walk_last hblank hkind)

/-- Where others follow, a segment fails or leads on. -/
theorem walk_fails_or_enters (s : Store) (schema : Schema) (before : List String)
    (segment : String) :
    (∃ defect, walk s schema before segment true = .fails defect) ∨
      ∃ inner, walk s schema before segment true = .enters inner := by
  by_cases hblank : before = [] ∧ Text.isBlank segment = true
  · exact Or.inl ⟨_, walk_blank hblank⟩
  cases hkind : schema.kind? segment with
  | none => exact Or.inl ⟨_, walk_unknown hblank hkind⟩
  | some kind =>
      cases htarget : kind.target? with
      | none => exact Or.inl ⟨_, walk_scalar hblank hkind htarget⟩
      | some target =>
          cases hstored : s.get? target with
          | none => exact Or.inl ⟨_, walk_dangling hblank hkind htarget hstored⟩
          | some inner => exact Or.inr ⟨_, walk_reference hblank hkind htarget hstored⟩

theorem walk_fails_ne_duplicateKey {more : Bool} {defect : FormDefect}
    (h : walk s schema before segment more = .fails defect) (key : String) :
    defect ≠ .duplicateKey key := by
  rintro rfl
  unfold walk at h
  repeat' split at h
  all_goals cases h

/-- A walk that goes on from the first segment has one that is not blank. -/
theorem not_blank_of_walk_enters {more : Bool} {inner : Schema}
    (h : walk s schema before segment more = .enters inner) :
    ¬ (before = [] ∧ Text.isBlank segment = true) := by
  intro hblank
  rw [walk, if_pos hblank] at h
  cases h

end SegmentStep

/-! ## Whole paths -/

namespace PathFault

variable {s : Store} {f : PathFault}

/-- A fault lies at the first segment or behind it. -/
theorem prefix_upTo_of_first? {schema : Schema} {before : List String} {segment : String}
    {rest : List String} (h : first? s schema before (segment :: rest) = some f) :
    before ++ [segment] <+: f.upTo := by
  induction rest generalizing schema before segment with
  | nil =>
      rw [first?] at h
      split at h
      · cases h
        exact List.prefix_rfl
      · cases h
      · rw [first?] at h
        cases h
  | cons next rest ih =>
      rw [first?] at h
      split at h
      · cases h
        exact List.prefix_rfl
      · cases h
      · exact (List.prefix_append _ _).trans (ih h)

/-- What fails keeps its first fault however it goes on. -/
theorem first?_of_prefix {schema : Schema} {before p q : List String} (hpq : p <+: q)
    (h : first? s schema before p = some f) : first? s schema before q = some f := by
  induction p generalizing schema before q with
  | nil => cases h
  | cons segment p ih =>
      cases q with
      | nil => cases List.prefix_nil.1 hpq
      | cons _ q =>
          obtain ⟨rfl, hrest⟩ := List.cons_prefix_cons.1 hpq
          rw [first?] at h ⊢
          cases p with
          | nil =>
              -- the walk of `p` ends here, so it can only have failed here
              rw [List.isEmpty_nil, Bool.not_true] at h
              rcases SegmentStep.walk_fails_or_ends s schema before segment with
                ⟨defect, hfails⟩ | hends
              · rw [hfails] at h ⊢
                exact h
              · rw [hends] at h
                cases h
          | cons next p =>
              have hq : q.isEmpty = false := by
                rw [List.isEmpty_eq_false_iff]
                rintro rfl
                cases List.prefix_nil.1 hrest
              rw [List.isEmpty_cons] at h
              rw [hq]
              rcases SegmentStep.walk_fails_or_enters s schema before segment with
                ⟨defect, hfails⟩ | ⟨inner, henters⟩
              · rw [Bool.not_false, hfails] at h ⊢
                exact h
              · rw [Bool.not_false, henters] at h ⊢
                exact ih hrest h

end PathFault

/-! ## Bound components -/

namespace FormComponent

/-- What a check finds at the component for a path agrees with where its last segment leads. -/
def Agrees (s : Store) (suppress : Bool) (key : String) (below : List FormComponent)
    (seen : List String) (found : Except CatalogError Findings) : SegmentStep → Prop
  | .fails defect => ∃ seen', found = .ok ⟨[defect], seen'⟩ ∧ seen' ⊆ key :: seen
  | .ends => found = .ok ⟨[], key :: seen⟩
  | .enters inner => found = checkAll s.lookup suppress inner below (key :: seen)

/-- At the component for a path, the check does what a walk does at its last segment. -/
theorem check_bound (s : Store) (suppress : Bool) (schema : Schema) {before : List String}
    {segment : String} {seen : List String} (below : List FormComponent)
    (hplain : ∀ part ∈ before ++ [segment], Text.Plain part)
    (hnew : Text.dotted (before ++ [segment]) ∉ seen) :
    let key := Text.dotted (before ++ [segment])
    Agrees s suppress key below seen (check s.lookup suppress schema (.bound key below) seen)
      (SegmentStep.walk s schema before segment (!below.isEmpty)) := by
  intro key
  have hlast : Text.lastSegment key = segment := Text.lastSegment_dotted_snoc hplain
  have hloud : (suppress && (bound key below).isHiddenList) = false := Bool.and_false suppress
  by_cases hblank : before = [] ∧ Text.isBlank segment = true
  · rw [SegmentStep.walk_blank hblank]
    have hkey : usableKey? (some key) = none := by
      rw [usableKey?, if_pos ((Text.isBlank_dotted_snoc before segment).2 hblank)]
    exact ⟨seen, check_unusable rfl hkey, List.subset_cons_self key seen⟩
  have hkey : usableKey? (some key) = some key :=
    usableKey?_eq_some_iff.2 ⟨rfl, Bool.eq_false_iff.2 fun h =>
      hblank ((Text.isBlank_dotted_snoc before segment).1 h)⟩
  cases hkind : schema.kind? segment with
  | none =>
      rw [SegmentStep.walk_unknown hblank hkind]
      rw [← hlast] at hkind
      exact ⟨key :: seen, check_unknown rfl hkey hnew hkind, List.Subset.refl _⟩
  | some kind =>
      have hkind' : schema.kind? (Text.lastSegment key) = some kind := by rw [hlast, hkind]
      by_cases hleaf : below = []
      · have hmore : (!below.isEmpty) = false := by rw [hleaf, List.isEmpty_nil, Bool.not_true]
        rw [hmore, SegmentStep.walk_last hblank hkind]
        exact check_leaf rfl hkey hnew hkind' hleaf
      have hmore : (!below.isEmpty) = true := by
        rw [Bool.not_eq_true', List.isEmpty_eq_false_iff]
        exact hleaf
      rw [hmore]
      cases htarget : kind.target? with
      | none =>
          rw [SegmentStep.walk_scalar hblank hkind htarget]
          exact ⟨key :: seen, check_scalar rfl hkey hnew hkind' hleaf htarget, List.Subset.refl _⟩
      | some target =>
          cases hstored : s.get? target with
          | none =>
              rw [SegmentStep.walk_dangling hblank hkind htarget hstored]
              exact ⟨key :: seen, check_dangling rfl hkey hnew hkind' hleaf htarget hstored,
                List.Subset.refl _⟩
          | some inner =>
              rw [SegmentStep.walk_reference hblank hkind htarget hstored]
              exact check_reference rfl hloud hkey hnew hkind' hleaf htarget hstored

end FormComponent

end SchemaCatalog
