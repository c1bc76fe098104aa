import Mathlib.Data.List.Nodup
import SchemaCatalog.Proofs.Linker.PathFault
import SchemaCatalog.Proofs.Linker.Tree

/-!
# Checks of trees of paths

The check of a tree of paths tells the first faults of these paths, one for each place
where a path fails first (`judges_checkAll`). No key is met twice on the way, since the
beginnings of paths are told apart by their dotted texts (`Checkable`).
-/

set_option autoImplicit false

namespace SchemaCatalog

open PathTree

/-! ## The faults of a node -/

namespace PathFault

variable {s : Store} {schema : Schema} {before : List String} {segment : String} {f : PathFault}

theorem first?_cons_of_ne_nil {q : List String} (hq : q ≠ []) :
    first? s schema before (segment :: q) =
      match SegmentStep.walk s schema before segment true with
      | .fails defect => some ⟨before ++ [segment], defect⟩
      | .ends => none
      | .enters inner => first? s inner (before ++ [segment]) q := by
  cases q with
  | nil => exact absurd rfl hq
  | cons next rest => rfl

theorem ne_nil_of_first? {q : List String} (h : first? s schema before q = some f) : q ≠ [] := by
  rintro rfl
  cases h

/-- The first faults of the paths through a node, by where its segment leads. -/
def Arises (s : Store) (before : List String) (segment : String)
    (nodes : List (String × PathTree)) (f : PathFault) : SegmentStep → Prop
  | .fails defect => f = ⟨before ++ [segment], defect⟩
  | .ends => False
  | .enters inner => ∃ q, Has nodes q ∧ first? s inner (before ++ [segment]) q = some f

theorem exists_first?_node_iff {nodes : List (String × PathTree)} :
    (∃ q, Has nodes q ∧ first? s schema before (segment :: q) = some f) ↔
      Arises s before segment nodes f
        (SegmentStep.walk s schema before segment (!nodes.isEmpty)) := by
  by_cases hleaf : nodes = []
  · subst hleaf
    have honly : (∃ q, Has [] q ∧ first? s schema before (segment :: q) = some f) ↔
        first? s schema before [segment] = some f := by
      constructor
      · rintro ⟨q, hq, hfirst⟩
        rw [has_nil_iff.1 hq] at hfirst
        exact hfirst
      · exact fun hfirst => ⟨[], trivial, hfirst⟩
    rw [honly, first?, List.isEmpty_nil, List.isEmpty_nil, Bool.not_true]
    rcases SegmentStep.walk_fails_or_ends s schema before segment with ⟨defect, hfails⟩ | hends
    · rw [hfails]
      exact ⟨fun h => (Option.some.inj h).symm, fun h => congrArg some h.symm⟩
    · rw [hends]
      refine iff_of_false ?_ id
      intro h
      cases h
  · obtain ⟨next, rest, hlong⟩ := exists_has_cons_iff.1 hleaf
    -- a path that ends at the node fails there only if each path through it does
    have hthrough : (∃ q, Has nodes q ∧ first? s schema before (segment :: q) = some f) ↔
        ∃ q, q ≠ [] ∧ Has nodes q ∧ first? s schema before (segment :: q) = some f := by
      constructor
      · rintro ⟨q, hq, hfirst⟩
        by_cases hnil : q = []
        · refine ⟨next :: rest, List.cons_ne_nil _ _, hlong, first?_of_prefix ?_ hfirst⟩
          rw [hnil]
          exact List.cons_prefix_cons.2 ⟨rfl, List.nil_prefix⟩
        · exact ⟨q, hnil, hq, hfirst⟩
      · rintro ⟨q, -, hq, hfirst⟩
        exact ⟨q, hq, hfirst⟩
    rw [hthrough, List.isEmpty_eq_false_iff.2 hleaf, Bool.not_false]
    rcases SegmentStep.walk_fails_or_enters s schema before segment with
      ⟨defect, hstep⟩ | ⟨inner, hstep⟩
    · rw [hstep]
      constructor
      · rintro ⟨q, hne, -, hfirst⟩
        rw [first?_cons_of_ne_nil hne, hstep] at hfirst
        exact (Option.some.inj hfirst).symm
      · rintro rfl
        refine ⟨next :: rest, List.cons_ne_nil _ _, hlong, ?_⟩
        rw [first?_cons_of_ne_nil (List.cons_ne_nil _ _), hstep]
    · rw [hstep]
      constructor
      · rintro ⟨q, hne, hq, hfirst⟩
        rw [first?_cons_of_ne_nil hne, hstep] at hfirst
        exact ⟨q, hq, hfirst⟩
      · rintro ⟨q, hq, hfirst⟩
        have hne := ne_nil_of_first? hfirst
        refine ⟨q, hne, hq, ?_⟩
        rw [first?_cons_of_ne_nil hne, hstep]
        exact hfirst

end PathFault

/-! ## Nodes that can be checked -/

/-- A path that leads through a node. -/
def Through (segment : String) (nodes : List (String × PathTree)) (path : List String) : Prop :=
  ∃ q, path = segment :: q ∧ Has nodes q

/-- Nodes below a path whose keys are made of plain segments and were not met before. A path
that is one empty segment does not show in a key, so it must not stand before them. -/
structure Checkable (before : List String) (nodes : List (String × PathTree))
    (seen : List String) : Prop where
  ordered : Ordered nodes
  anchored : before ≠ [""]
  plain : ∀ path, Has nodes path → ∀ part ∈ before ++ path, Text.Plain part
  unmet : ∀ path, path ≠ [] → Has nodes path → Text.dotted (before ++ path) ∉ seen

namespace Checkable

variable {before : List String} {segment : String} {t : PathTree}
  {rest : List (String × PathTree)} {seen seen' : List String}

theorem has_of_through (h : Checkable before ((segment, t) :: rest) seen) {path : List String}
    (hpath : Through segment t.entries path) : Has ((segment, t) :: rest) path :=
  (has_cons_iff h.ordered.sorted).2 (Or.inl hpath)

theorem has_of_rest (h : Checkable before ((segment, t) :: rest) seen) {path : List String}
    (hpath : Has rest path) : Has ((segment, t) :: rest) path :=
  (has_cons_iff h.ordered.sorted).2 (Or.inr hpath)

/-- Two paths with one key are the same path. -/
theorem eq_of_dotted_eq {nodes : List (String × PathTree)} (h : Checkable before nodes seen)
    {p q : List String} (hp : Has nodes p) (hq : Has nodes q) (hpne : p ≠ []) (hqne : q ≠ [])
    (heq : Text.dotted (before ++ p) = Text.dotted (before ++ q)) : p = q := by
  have hboth : before ++ p = before ++ q :=
    Text.dotted_inj (List.append_ne_nil_of_right_ne_nil _ hpne)
      (List.append_ne_nil_of_right_ne_nil _ hqne) (h.plain p hp) (h.plain q hq) heq
  exact List.append_cancel_left hboth

theorem node_has (h : Checkable before ((segment, t) :: rest) seen) :
    Has ((segment, t) :: rest) [segment] :=
  h.has_of_through ⟨[], rfl, trivial⟩

theorem key_eq (h : Checkable before ((segment, t) :: rest) seen) :
    extendKey (Text.dotted before) segment = Text.dotted (before ++ [segment]) := by
  by_cases hbefore : before = []
  · rw [hbefore, List.nil_append, Text.dotted_singleton]
    rfl
  · have hne : Text.dotted before ≠ "" := by
      intro hempty
      rcases (Text.dotted_eq_empty_iff before).1 hempty with hnil | hblank
      · exact hbefore hnil
      · exact h.anchored hblank
    exact extendKey_dotted hne segment

/-- Below a node its own key counts as met; the keys there are longer. -/
theorem below (h : Checkable before ((segment, t) :: rest) seen)
    (hblank : ¬ (before = [] ∧ Text.isBlank segment = true)) :
    Checkable (before ++ [segment]) t.entries (Text.dotted (before ++ [segment]) :: seen) where
  ordered := h.ordered.entries_of_mem List.mem_cons_self
  anchored := by
    intro heq
    cases before with
    | nil =>
        cases heq
        exact hblank ⟨rfl, rfl⟩
    | cons part before =>
        have hlength := congrArg List.length heq
        simp at hlength
  plain := by
    intro path hpath
    rw [List.append_assoc]
    exact h.plain _ (h.has_of_through ⟨path, rfl, hpath⟩)
  unmet := by
    intro path hne hpath
    have hthrough := h.has_of_through ⟨path, rfl, hpath⟩
    rw [List.append_assoc, List.singleton_append, List.mem_cons, not_or]
    -- the key of the node itself belongs to a path that ends there
    refine ⟨?_, h.unmet _ (List.cons_ne_nil _ _) hthrough⟩
    intro heq
    have hsame := h.eq_of_dotted_eq hthrough h.node_has (List.cons_ne_nil _ _)
      (List.cons_ne_nil _ _) heq
    exact hne (List.cons.inj hsame).2

/-- The keys met at a node and below it are not those of the nodes behind it. -/
theorem behind (h : Checkable before ((segment, t) :: rest) seen)
    (hseen : ∀ key ∈ seen', key ∈ seen ∨ ∃ path, path ≠ [] ∧ Through segment t.entries path ∧
      key = Text.dotted (before ++ path)) :
    Checkable before rest seen' where
  ordered := h.ordered.rest
  anchored := h.anchored
  plain := fun path hpath => h.plain path (h.has_of_rest hpath)
  unmet := by
    intro path hne hpath hin
    rcases hseen _ hin with hin | ⟨_, hne', ⟨q, rfl, hq⟩, heq⟩
    · exact h.unmet path hne (h.has_of_rest hpath) hin
    · have hsame := h.eq_of_dotted_eq (h.has_of_rest hpath) (h.has_of_through ⟨q, rfl, hq⟩)
        hne hne' heq
      rw [hsame] at hpath
      exact h.ordered.not_has_rest q hpath

/-- Paths through a node and paths through the nodes behind it fail at different places. -/
theorem upTo_ne (h : Checkable before ((segment, t) :: rest) seen) {s : Store} {schema : Schema}
    {p q : List String} {f g : PathFault} (hp : Through segment t.entries p) (hq : Has rest q)
    (hf : PathFault.first? s schema before p = some f)
    (hg : PathFault.first? s schema before q = some g) : f.upTo ≠ g.upTo := by
  intro heq
  obtain ⟨p', rfl, -⟩ := hp
  cases q with
  | nil => exact PathFault.ne_nil_of_first? hg rfl
  | cons other q' =>
      -- the places begin with the segments of two nodes, and these differ
      have hf' := PathFault.prefix_upTo_of_first? hf
      have hg' := PathFault.prefix_upTo_of_first? hg
      rw [← heq] at hg'
      have hlength : (before ++ [segment]).length = (before ++ [other]).length := by
        rw [List.length_append, List.length_append, List.length_singleton, List.length_singleton]
      have hsame : before ++ [segment] = before ++ [other] :=
        (List.prefix_of_prefix_length_le hf' hg' (Nat.le_of_eq hlength)).eq_of_length hlength
      obtain ⟨rfl, -⟩ := List.cons.inj (List.append_cancel_left hsame)
      exact h.ordered.not_has_rest q' hq

end Checkable

/-! ## Checks of several nodes -/

/-- What a check tells about some paths: their first faults, one for each place where one of
them fails, and no key but theirs is met on the way. -/
def Judges (s : Store) (schema : Schema) (before : List String) (holds : List String → Prop)
    (seen : List String) (found : Except CatalogError FormComponent.Findings) : Prop :=
  ∃ (faults : List PathFault) (seen' : List String),
    found = .ok ⟨faults.map PathFault.defect, seen'⟩ ∧
    (faults.map PathFault.upTo).Nodup ∧
    (∀ f, f ∈ faults ↔ ∃ path, holds path ∧ PathFault.first? s schema before path = some f) ∧
    ∀ key ∈ seen', key ∈ seen ∨
      ∃ path, path ≠ [] ∧ holds path ∧ key = Text.dotted (before ++ path)

section Checks

variable {before : List String} {segment : String} {t : PathTree} {seen : List String}

/-- The check of a node, if the nodes below it are judged correctly. -/
theorem judges_node (s : Store) (schema : Schema)
    (hplain : ∀ part ∈ before ++ [segment], Text.Plain part)
    (hnew : Text.dotted (before ++ [segment]) ∉ seen)
    (hbelow : ∀ inner, ¬ (before = [] ∧ Text.isBlank segment = true) →
      let key := Text.dotted (before ++ [segment])
      Judges s inner (before ++ [segment]) (Has t.entries) (key :: seen)
        (FormComponent.checkAll s.lookup true inner (componentsOf key t.entries) (key :: seen))) :
    let key := Text.dotted (before ++ [segment])
    Judges s schema before (Through segment t.entries) seen
      (FormComponent.check s.lookup true schema (.bound key (componentsOf key t.entries)) seen) := by
  intro key
  have hfaults : ∀ f, (∃ path, Through segment t.entries path ∧
      PathFault.first? s schema before path = some f) ↔
      ∃ q, Has t.entries q ∧ PathFault.first? s schema before (segment :: q) = some f := by
    intro f
    constructor
    · rintro ⟨_, ⟨q, rfl, hq⟩, hfirst⟩
      exact ⟨q, hq, hfirst⟩
    · rintro ⟨q, hq, hfirst⟩
      exact ⟨segment :: q, ⟨q, rfl, hq⟩, hfirst⟩
  have hown : ∀ k, k = key ∨ k ∈ seen → k ∈ seen ∨
      ∃ path, path ≠ [] ∧ Through segment t.entries path ∧ k = Text.dotted (before ++ path) := by
    rintro k (rfl | hk)
    · exact Or.inr ⟨[segment], List.cons_ne_nil _ _, ⟨[], rfl, trivial⟩, rfl⟩
    · exact Or.inl hk
  have hcheck := FormComponent.check_bound s true schema (componentsOf key t.entries) hplain hnew
  have hwalk := fun f => (hfaults f).trans PathFault.exists_first?_node_iff
  rw [isEmpty_componentsOf] at hcheck
  cases hstep : SegmentStep.walk s schema before segment (!t.entries.isEmpty) with
  | fails defect =>
      rw [hstep] at hcheck
      obtain ⟨seen', hfound, hseen'⟩ := hcheck
      refine ⟨[⟨before ++ [segment], defect⟩], seen', hfound, ?_, ?_, ?_⟩
      · exact List.pairwise_singleton _ _
      · intro f
        rw [hwalk f, hstep, List.mem_singleton]
        exact Iff.rfl
      · exact fun k hk => hown k (List.mem_cons.1 (hseen' hk))
  | ends =>
      rw [hstep] at hcheck
      refine ⟨[], key :: seen, hcheck, List.nodup_nil, ?_, ?_⟩
      · intro f
        rw [hwalk f, hstep]
        exact iff_of_false List.not_mem_nil id
      · exact fun k hk => hown k (List.mem_cons.1 hk)
  | enters inner =>
      rw [hstep] at hcheck
      obtain ⟨faults, seen', hfound, hdistinct, hmem, hseen'⟩ :=
        hbelow inner (SegmentStep.not_blank_of_walk_enters hstep)
      refine ⟨faults, seen', hcheck.trans hfound, hdistinct, ?_, ?_⟩
      · intro f
        rw [hwalk f, hstep]
        exact hmem f
      · intro k hk
        rcases hseen' k hk with hk | ⟨path, -, hpath, rfl⟩
        · exact hown k (List.mem_cons.1 hk)
        · refine Or.inr ⟨segment :: path, List.cons_ne_nil _ _, ⟨path, rfl, hpath⟩, ?_⟩
          rw [List.append_assoc, List.singleton_append]

/-- The check of a tree tells the first faults of the paths that the tree holds. -/
theorem judges_checkAll (s : Store) (nodes : List (String × PathTree)) :
    ∀ schema before seen, Checkable before nodes seen →
      Judges s schema before (Has nodes) seen
        (FormComponent.checkAll s.lookup true schema (componentsOf (Text.dotted before) nodes)
          seen) := by
  induction nodes using nodesInduction with
  | nil =>
      intro schema before seen _
      rw [componentsOf, FormComponent.checkAll]
      refine ⟨[], seen, rfl, List.nodup_nil, ?_, fun _ hk => Or.inl hk⟩
      intro f
      refine iff_of_false List.not_mem_nil ?_
      rintro ⟨path, hpath, hfirst⟩
      exact PathFault.ne_nil_of_first? hfirst (has_nil_iff.1 hpath)
  | cons segment t rest ihbelow ihrest =>
      intro schema before seen hnodes
      have hnode := hnodes.node_has
      obtain ⟨faults₁, seen₁, hfound₁, hdistinct₁, hmem₁, hseen₁⟩ :=
        judges_node s schema (hnodes.plain _ hnode) (hnodes.unmet _ (List.cons_ne_nil _ _) hnode)
          (fun inner hblank => ihbelow inner _ _ (hnodes.below hblank))
      -- the keys met so far are of paths through this node, so the nodes behind it are new
      obtain ⟨faults₂, seen₂, hfound₂, hdistinct₂, hmem₂, hseen₂⟩ :=
        ihrest schema before seen₁ (hnodes.behind hseen₁)
      refine ⟨faults₁ ++ faults₂, seen₂, ?_, ?_, ?_, ?_⟩
      · rw [componentsOf_cons, hnodes.key_eq, List.map_append]
        exact FormComponent.checkAll_cons hfound₁ hfound₂
      · rw [List.map_append, List.nodup_append]
        refine ⟨hdistinct₁, hdistinct₂, ?_⟩
        intro place hplace₁ place' hplace₂
        obtain ⟨f, hf, rfl⟩ := List.mem_map.1 hplace₁
        obtain ⟨g, hg, rfl⟩ := List.mem_map.1 hplace₂
        obtain ⟨p, hp, hfirst⟩ := (hmem₁ f).1 hf
        obtain ⟨q, hq, hfirst'⟩ := (hmem₂ g).1 hg
        exact hnodes.upTo_ne hp hq hfirst hfirst'
      · intro f
        rw [List.mem_append, hmem₁ f, hmem₂ f, ← exists_or]
        refine exists_congr fun path => ?_
        rw [has_cons_iff hnodes.ordered.sorted, or_and_right, Through]
      · intro key hkey
        rcases hseen₂ key hkey with hkey | ⟨path, hne, hpath, rfl⟩
        · rcases hseen₁ key hkey with hkey | ⟨path, hne, hpath, rfl⟩
          · exact Or.inl hkey
          · exact Or.inr ⟨path, hne, hnodes.has_of_through hpath, rfl⟩
        · exact Or.inr ⟨path, hne, hnodes.has_of_rest hpath, rfl⟩

end Checks

end SchemaCatalog
