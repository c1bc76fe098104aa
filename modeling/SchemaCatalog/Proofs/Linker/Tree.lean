import SchemaCatalog.Linker.PathTree
import SchemaCatalog.Proofs.Keyed
import SchemaCatalog.Proofs.Text.Dotted

/-!
# The paths of a tree

A tree of paths holds the beginnings of the paths that were put into it and no others
(`has_ofPaths_iff`), so it does not matter in which order or how often that was done. No
two nodes below one place have the same segment (`ordered_ofPaths`).
-/

set_option autoImplicit false

namespace SchemaCatalog

namespace PathTree

/-! ## What a tree holds -/

/-- Nodes hold a path when its segments lead from one to the next. -/
def Has : List (String × PathTree) → List String → Prop
  | _, [] => True
  | nodes, segment :: rest => ∃ t, Keyed.get? nodes segment = some t ∧ Has t.entries rest

theorem has_nil_iff {path : List String} : Has [] path ↔ path = [] := by
  cases path with
  | nil => exact iff_of_true trivial rfl
  | cons segment rest =>
      constructor
      · rintro ⟨t, hget, -⟩
        cases hget
      · intro h
        cases h

/-- Inserting a path adds its beginnings. -/
theorem has_insert_iff (t : PathTree) (path p : List String) :
    Has (t.insert path).entries p ↔ Has t.entries p ∨ p <+: path := by
  induction path generalizing t p with
  | nil =>
      rw [insert, List.prefix_nil]
      constructor
      · exact Or.inl
      · rintro (h | rfl)
        · exact h
        · trivial
  | cons segment rest ih =>
      cases p with
      | nil => exact iff_of_true trivial (Or.inl trivial)
      | cons q p =>
          rw [insert, entries, Has, Keyed.get?_insert]
          by_cases hq : q = segment
          · subst hq
            have hstep : (∃ t', some ((Keyed.get? t.entries q).getD empty |>.insert rest) = some t' ∧
                Has t'.entries p) ↔
                Has ((Keyed.get? t.entries q).getD empty |>.insert rest).entries p := by simp
            rw [if_pos rfl, hstep, ih, List.cons_prefix_cons, Has]
            cases hget : Keyed.get? t.entries q with
            | some old => simp
            -- a new node starts empty and then has the beginnings of the rest
            | none =>
                have hempty : Has empty.entries p ↔ p = [] := has_nil_iff
                rw [Option.getD_none, hempty]
                constructor
                · rintro (rfl | hp)
                  · exact Or.inr ⟨rfl, List.nil_prefix⟩
                  · exact Or.inr ⟨rfl, hp⟩
                · rintro (⟨_, hnone, -⟩ | ⟨-, hp⟩)
                  · cases hnone
                  · exact Or.inr hp
          · rw [if_neg hq, List.cons_prefix_cons, Has]
            constructor
            · exact Or.inl
            · rintro (h | ⟨heq, -⟩)
              · exact h
              · exact absurd heq hq

theorem has_foldl_insert_iff (paths : List String) (t : PathTree) (p : List String) :
    Has (paths.foldl (fun t path => t.insert (Text.segments path)) t).entries p ↔
      Has t.entries p ∨ ∃ path ∈ paths, p <+: Text.segments path := by
  induction paths generalizing t with
  | nil => simp
  | cons path rest ih =>
      rw [List.foldl_cons, ih, has_insert_iff, or_assoc]
      simp

/-- The tree of some paths holds their beginnings. -/
theorem has_ofPaths_iff (paths : List String) (p : List String) :
    Has (ofPaths paths).entries p ↔ p = [] ∨ ∃ path ∈ paths, p <+: Text.segments path := by
  have hempty : Has empty.entries p ↔ p = [] := has_nil_iff
  rw [ofPaths, has_foldl_insert_iff, hempty]

/-! ## Distinct segments -/

/-- Below every place the nodes stand in the order of their segments, each once. -/
inductive Ordered : List (String × PathTree) → Prop
  | mk {nodes : List (String × PathTree)} :
      Keyed.Sorted nodes → (∀ node ∈ nodes, Ordered node.2.entries) → Ordered nodes

theorem ordered_nil : Ordered [] := by
  refine .mk Keyed.sorted_nil ?_
  intro node h
  cases h

theorem Ordered.sorted {nodes : List (String × PathTree)} (h : Ordered nodes) :
    Keyed.Sorted nodes := by
  cases h with
  | mk hsorted _ => exact hsorted

theorem Ordered.entries_of_mem {nodes : List (String × PathTree)} (h : Ordered nodes)
    {node : String × PathTree} (hnode : node ∈ nodes) : Ordered node.2.entries := by
  cases h with
  | mk _ hbelow => exact hbelow node hnode

theorem Ordered.rest {node : String × PathTree} {nodes : List (String × PathTree)}
    (h : Ordered (node :: nodes)) : Ordered nodes :=
  .mk (List.pairwise_cons.1 h.sorted).2
    fun _ hother => h.entries_of_mem (List.mem_cons_of_mem node hother)

theorem Ordered.insert {t : PathTree} (h : Ordered t.entries) (path : List String) :
    Ordered (t.insert path).entries := by
  induction path generalizing t with
  | nil => exact h
  | cons segment rest ih =>
      rw [PathTree.insert, entries]
      -- the node that changes was empty or stood in the tree, and is in order either way
      refine .mk (Keyed.sorted_insert h.sorted _ _) ?_
      intro node hnode
      rcases Keyed.mem_of_mem_insert hnode with rfl | hnode
      · apply ih
        cases hget : Keyed.get? t.entries segment with
        | none => exact ordered_nil
        | some old => exact h.entries_of_mem (Keyed.mem_of_get?_eq_some hget)
      · exact h.entries_of_mem hnode

theorem ordered_ofPaths (paths : List String) : Ordered (ofPaths paths).entries := by
  suffices ∀ t : PathTree, Ordered t.entries →
      Ordered (paths.foldl (fun t path => t.insert (Text.segments path)) t).entries from
    this empty ordered_nil
  induction paths with
  | nil => exact fun _ h => h
  | cons path rest ih => exact fun t h => ih _ (h.insert (Text.segments path))

/-! ## Nodes and the nodes below them -/

/-- Induction over some nodes and, for each of them, the nodes below it. -/
theorem nodesInduction {motive : List (String × PathTree) → Prop} (nil : motive [])
    (cons : ∀ segment t rest, motive t.entries → motive rest → motive ((segment, t) :: rest)) :
    ∀ nodes, motive nodes
  | [] => nil
  | (segment, .node below) :: rest =>
      cons segment (.node below) rest (nodesInduction nil cons below) (nodesInduction nil cons rest)

/-- A node has the paths below it; the other paths belong to the nodes behind it. -/
theorem has_cons_iff {segment : String} {t : PathTree} {rest : List (String × PathTree)}
    (h : Keyed.Sorted ((segment, t) :: rest)) {p : List String} :
    Has ((segment, t) :: rest) p ↔
      (∃ q, p = segment :: q ∧ Has t.entries q) ∨ Has rest p := by
  cases p with
  | nil => exact iff_of_true trivial (Or.inr trivial)
  | cons first q =>
      rw [Has, Has, Keyed.get?]
      by_cases hfirst : segment = first
      · subst hfirst
        rw [if_pos rfl, h.get?_rest]
        simp
      · rw [if_neg hfirst]
        constructor
        · exact Or.inr
        · rintro (⟨_, heq, -⟩ | hrest)
          · cases heq
            exact absurd rfl hfirst
          · exact hrest

/-- The nodes behind one hold no path through it. -/
theorem Ordered.not_has_rest {segment : String} {t : PathTree} {rest : List (String × PathTree)}
    (h : Ordered ((segment, t) :: rest)) (q : List String) : ¬ Has rest (segment :: q) := by
  rintro ⟨t', hget, -⟩
  rw [h.sorted.get?_rest] at hget
  cases hget

/-- A place without nodes holds no path of some length. -/
theorem exists_has_cons_iff {nodes : List (String × PathTree)} :
    nodes ≠ [] ↔ ∃ segment rest, Has nodes (segment :: rest) := by
  cases nodes with
  | nil =>
      refine iff_of_false (fun h => h rfl) ?_
      rintro ⟨segment, rest, h⟩
      cases has_nil_iff.1 h
  | cons node nodes =>
      obtain ⟨segment, t⟩ := node
      refine iff_of_true (List.cons_ne_nil _ _) ⟨segment, [], t, ?_, trivial⟩
      rw [Keyed.get?, if_pos rfl]

theorem components_eq (path : String) (t : PathTree) :
    components path t = componentsOf path t.entries := by
  cases t with
  | node below => rw [components, entries]

/-- The components for some nodes, with those for the nodes below the first. -/
theorem componentsOf_cons (path segment : String) (t : PathTree)
    (rest : List (String × PathTree)) :
    componentsOf path ((segment, t) :: rest) =
      .bound (extendKey path segment) (componentsOf (extendKey path segment) t.entries) ::
        componentsOf path rest := by
  rw [componentsOf, components_eq]

theorem isEmpty_componentsOf (path : String) (nodes : List (String × PathTree)) :
    (componentsOf path nodes).isEmpty = nodes.isEmpty := by
  cases nodes with
  | nil => rw [componentsOf, List.isEmpty_nil, List.isEmpty_nil]
  | cons node nodes =>
      obtain ⟨segment, t⟩ := node
      rw [componentsOf_cons, List.isEmpty_cons, List.isEmpty_cons]

/-- A key that is not empty gets a dot and the segment. -/
theorem extendKey_dotted {before : List String} (h : Text.dotted before ≠ "")
    (segment : String) :
    extendKey (Text.dotted before) segment = Text.dotted (before ++ [segment]) := by
  have hbefore : before ≠ [] := fun hnil => h ((Text.dotted_eq_empty_iff before).2 (Or.inl hnil))
  rw [extendKey, if_neg (fun hempty => h (String.isEmpty_iff.1 hempty)),
    Text.dotted_snoc hbefore]

end PathTree

end SchemaCatalog
