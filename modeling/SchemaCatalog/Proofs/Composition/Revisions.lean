import Mathlib.Algebra.BigOperators.Group.Finset.Basic
import SchemaCatalog.Proofs.Composition.Distance

/-!
# The composition graph after any revisions

A revision replaces the children of one key. What the graph holds after a sequence of
revisions can be read off the sequence: the children of a key are those of its last
revision (`Revisions.children_graph`), its parents come in the order of their last
revisions (`Revisions.parents_graph`), and a node is a key that some revision mentions
(`Revisions.mem_nodes_graph_iff`).

Each of these is proved from what one revision does to the graph: it puts its own edges in
front of those of the other parents and leaves these in their order.
-/

set_option autoImplicit false

namespace SchemaCatalog

namespace CompositionGraph

/-! ## One revision -/

/-- A revision gives its parent new children, the last one in front, and keeps the children
of every other key. -/
theorem children_setChildren (g : CompositionGraph) (parent : String) (children : List String)
    (key : String) :
    (g.setChildren parent children).children key =
      if key = parent then children.eraseDups.reverse else g.children key := by
  rw [CompositionGraph.children, edges_setChildren, List.filter_append, List.filter_reverse,
    List.filter_map, List.filter_filter]
  by_cases hkey : key = parent
  · -- all new edges start at the key, and no old one is left that does
    subst hkey
    simp [Function.comp_def]
  · -- no new edge starts at the key, and its old ones are all left
    have hold : ∀ e ∈ g.edges, (e.1 == key && e.1 != parent) = (e.1 == key) := by
      intro e _
      by_cases he : e.1 = key
      · simp [he, hkey]
      · simp [he]
    rw [if_neg hkey, List.filter_congr hold]
    simp [Function.comp_def, Ne.symm hkey, CompositionGraph.children]

theorem filter_eq_of_mem {keys : List String} (h : keys.Nodup) {key : String} (hkey : key ∈ keys) :
    keys.filter (fun k => k == key) = [key] := by
  rw [List.filter_beq, List.count_eq_one_of_mem h hkey, List.replicate_one]

/-- A revision puts its parent in front of the other parents of each of its children, and
takes it away from all other keys. -/
theorem parents_setChildren (g : CompositionGraph) (parent : String) (children : List String)
    (key : String) :
    (g.setChildren parent children).parents key =
      (if key ∈ children then [parent] else []) ++ (g.parents key).filter (· != parent) := by
  have hold : ((g.edges.filter fun e => e.1 != parent).filter fun e => e.2 == key).map Prod.fst =
      (g.parents key).filter (· != parent) := by
    rw [parents, List.filter_map, List.filter_filter, List.filter_filter]
    refine congrArg (List.map Prod.fst) (List.filter_congr fun e _ => ?_)
    exact Bool.and_comm _ _
  have hnew : ((children.eraseDups.map fun child => (parent, child)).reverse.filter
      fun e => e.2 == key).map Prod.fst = if key ∈ children then [parent] else [] := by
    rw [List.filter_reverse, List.filter_map, List.map_reverse, List.map_map]
    by_cases hkey : key ∈ children
    · have hin : key ∈ children.eraseDups := List.mem_eraseDups.2 hkey
      rw [if_pos hkey]
      simp [Function.comp_def, filter_eq_of_mem (nodup_eraseDups children) hin]
    · have hnone : children.eraseDups.filter (fun child => child == key) = [] := by
        rw [List.filter_eq_nil_iff]
        intro child hchild heq
        rw [beq_iff_eq] at heq
        exact hkey (heq ▸ List.mem_eraseDups.1 hchild)
      rw [if_neg hkey]
      simp [Function.comp_def, hnone]
  rw [parents, edges_setChildren, List.filter_append, List.map_append, hnew, hold]

theorem nodup_nodes_mention {g : CompositionGraph} (h : g.nodes.Nodup) (key : String) :
    (g.mention key).nodes.Nodup := by
  rw [mention]
  split
  · exact h
  · rename_i hnew
    refine List.nodup_append.2 ⟨h, List.nodup_singleton key, ?_⟩
    rintro a ha b hb rfl
    exact hnew (List.mem_singleton.1 hb ▸ ha)

/-- A revision adds no node twice. -/
theorem nodup_nodes_setChildren {g : CompositionGraph} (h : g.nodes.Nodup) (parent : String)
    (children : List String) : (g.setChildren parent children).nodes.Nodup := by
  have hlinks : ∀ (keys : List String) (g : CompositionGraph), g.nodes.Nodup →
      (keys.foldl (fun g child => g.link parent child) g).nodes.Nodup := by
    intro keys
    induction keys with
    | nil => exact fun g hg => hg
    | cons key rest ih => exact fun g hg => ih _ (nodup_nodes_mention hg key)
  exact hlinks children.eraseDups _ (nodup_nodes_mention h parent)

theorem nodup_parents {g : CompositionGraph} (h : g.edges.Nodup) (key : String) :
    (g.parents key).Nodup := by
  -- the edges to one key are told apart by where they start
  refine List.Nodup.map_on ?_ (h.filter _)
  intro a ha b hb heq
  have hfirst : a.2 = key := by simpa using (List.mem_filter.1 ha).2
  have hsecond : b.2 = key := by simpa using (List.mem_filter.1 hb).2
  exact Prod.ext heq (hfirst.trans hsecond.symm)

/-- Edges are counted parent by parent, whatever set of keys holds the parents. -/
theorem edgeCount_eq_sum {g : CompositionGraph} {keys : Finset String}
    (h : ∀ e ∈ g.edges, e.1 ∈ keys) :
    g.edgeCount = ∑ parent ∈ keys, (g.children parent).length := by
  have hcount : ∀ parent, (g.children parent).length =
      Multiset.count parent (g.edges.map Prod.fst : Multiset String) := by
    intro parent
    rw [Multiset.coe_count, List.count_eq_length_filter, List.filter_map, List.length_map,
      CompositionGraph.children, List.length_map]
    rfl
  have hparents : ∀ a ∈ (g.edges.map Prod.fst : Multiset String), a ∈ keys := by
    intro a ha
    obtain ⟨e, he, rfl⟩ := List.mem_map.1 (Multiset.mem_coe.1 ha)
    exact h e he
  simp only [hcount]
  rw [Multiset.sum_count_eq_card hparents, Multiset.coe_card, List.length_map, edgeCount]

/-! ## Sequences of revisions -/

/-- Repetitions can be dropped before or after a filter. -/
theorem eraseDups_filter (p : String → Bool) (keys : List String) :
    (keys.filter p).eraseDups = keys.eraseDups.filter p := by
  cases keys with
  | nil => rfl
  | cons key rest =>
      have hrest := eraseDups_filter p (rest.filter fun other => !other == key)
      rw [List.filter_filter] at hrest
      rw [List.eraseDups_cons]
      by_cases hkey : p key
      · rw [List.filter_cons_of_pos hkey, List.filter_cons_of_pos hkey, List.eraseDups_cons,
          ← hrest, List.filter_filter]
        simp only [Bool.and_comm]
      · -- the key itself is dropped, so it does not matter that it is dropped everywhere
        rw [List.filter_cons_of_neg hkey, List.filter_cons_of_neg hkey, ← hrest]
        refine congrArg List.eraseDups (List.filter_congr fun other _ => ?_)
        by_cases hother : other = key
        · simp [hother, hkey]
        · simp [hother]
termination_by keys.length
decreasing_by
  have h := List.length_filter_le (fun other => !other == key) rest
  rw [List.length_cons]
  omega

/-- Revisions, each a parent and the list of its children, in the order in which they are
made. -/
abbrev Revisions := List (String × List String)

namespace Revisions

/-- The graph that revisions make of the empty one. -/
def graph (revisions : Revisions) : CompositionGraph :=
  revisions.foldl (fun g revision => g.setChildren revision.1 revision.2) CompositionGraph.empty

/-- The list of children in the last revision of a parent; it is empty for a key that never
was a parent. -/
def lastChildren (revisions : Revisions) (parent : String) : List String :=
  ((revisions.reverse.find? fun revision => revision.1 == parent).map Prod.snd).getD []

/-- The parents by their last revisions, the most recent one first. -/
def recentParents (revisions : Revisions) : List String :=
  (revisions.reverse.map Prod.fst).eraseDups

/-- The keys of the revisions, as parents and as children. -/
def mentioned (revisions : Revisions) : List String :=
  revisions.flatMap fun revision => revision.1 :: revision.2

section Extended

variable (revisions : Revisions) (revision : String × List String)

theorem graph_concat :
    graph (revisions ++ [revision]) = (graph revisions).setChildren revision.1 revision.2 := by
  rw [graph, List.foldl_append]
  rfl

theorem lastChildren_concat (parent : String) :
    lastChildren (revisions ++ [revision]) parent =
      if parent = revision.1 then revision.2 else lastChildren revisions parent := by
  rw [lastChildren, List.reverse_append, List.reverse_singleton, List.singleton_append,
    List.find?_cons]
  by_cases hparent : parent = revision.1
  · simp [hparent]
  · have hother : (revision.1 == parent) = false := by simpa using Ne.symm hparent
    simp [hparent, hother, lastChildren]

theorem recentParents_concat :
    recentParents (revisions ++ [revision]) =
      revision.1 :: (recentParents revisions).filter (· != revision.1) := by
  rw [recentParents, List.reverse_append, List.reverse_singleton, List.singleton_append,
    List.map_cons, List.eraseDups_cons, recentParents, ← eraseDups_filter]
  rfl

theorem mem_mentioned_concat_iff (key : String) :
    key ∈ mentioned (revisions ++ [revision]) ↔
      key ∈ revision.2 ∨ key = revision.1 ∨ key ∈ mentioned revisions := by
  simp only [mentioned, List.flatMap_append, List.flatMap_singleton, List.mem_append, List.mem_cons]
  tauto

end Extended

section Graph

variable (revisions : Revisions)

/-- A key has the children of its last revision, the last one in front. -/
theorem children_graph (key : String) :
    (graph revisions).children key = (lastChildren revisions key).eraseDups.reverse := by
  induction revisions using List.reverseRecOn with
  | nil => rfl
  | append_singleton revisions revision ih =>
      rw [graph_concat, children_setChildren, lastChildren_concat, ih]
      split
      · rfl
      · rfl

theorem mem_children_graph_iff (parent child : String) :
    child ∈ (graph revisions).children parent ↔ child ∈ lastChildren revisions parent := by
  rw [children_graph, List.mem_reverse, List.mem_eraseDups]

/-- The parents of a key are those whose last revision names it, and they come in the order of
these revisions, the most recent one first. -/
theorem parents_graph (key : String) :
    (graph revisions).parents key =
      (recentParents revisions).filter fun parent =>
        decide (key ∈ lastChildren revisions parent) := by
  induction revisions using List.reverseRecOn with
  | nil => rfl
  | append_singleton revisions revision ih =>
      -- behind its parent a revision changes nothing but that this parent is taken out
      have hothers : ((recentParents revisions).filter (· != revision.1)).filter (fun parent =>
            decide (key ∈ lastChildren (revisions ++ [revision]) parent)) =
          ((recentParents revisions).filter fun parent =>
            decide (key ∈ lastChildren revisions parent)).filter (· != revision.1) := by
        rw [List.filter_filter, List.filter_filter]
        refine List.filter_congr fun parent _ => ?_
        rw [lastChildren_concat]
        by_cases hparent : parent = revision.1
        · simp [hparent]
        · simp [hparent, Bool.and_comm]
      have hself : lastChildren (revisions ++ [revision]) revision.1 = revision.2 := by
        rw [lastChildren_concat, if_pos rfl]
      rw [graph_concat, parents_setChildren, ih, recentParents_concat, List.filter_cons, hothers,
        hself]
      by_cases hkey : key ∈ revision.2
      · simp [hkey]
      · simp [hkey]

/-- The nodes are the keys that were mentioned. -/
theorem mem_nodes_graph_iff (key : String) :
    key ∈ (graph revisions).nodes ↔ key ∈ mentioned revisions := by
  induction revisions using List.reverseRecOn with
  | nil => exact Iff.rfl
  | append_singleton revisions revision ih =>
      rw [graph_concat, mem_nodes_setChildren_iff, mem_mentioned_concat_iff, ih]

theorem nodup_nodes_graph : (graph revisions).nodes.Nodup := by
  induction revisions using List.reverseRecOn with
  | nil => exact List.nodup_nil
  | append_singleton revisions revision ih =>
      rw [graph_concat]
      exact nodup_nodes_setChildren ih revision.1 revision.2

theorem nodup_edges_graph : (graph revisions).edges.Nodup := by
  induction revisions using List.reverseRecOn with
  | nil => exact List.nodup_nil
  | append_singleton revisions revision ih =>
      rw [graph_concat]
      exact nodup_edges_setChildren ih revision.1 revision.2

theorem grounded_graph : (graph revisions).Grounded := by
  induction revisions using List.reverseRecOn with
  | nil => exact grounded_empty
  | append_singleton revisions revision ih =>
      rw [graph_concat]
      exact ih.setChildren revision.1 revision.2

/-- Only a key that was revised has children. -/
theorem mem_parents_of_edge {e : String × String} (he : e ∈ (graph revisions).edges) :
    e.1 ∈ (revisions.map Prod.fst).toFinset := by
  have hchild : e.2 ∈ lastChildren revisions e.1 :=
    (mem_children_graph_iff revisions e.1 e.2).1 ((mem_children_iff _ e.1 e.2).2 he)
  rw [lastChildren] at hchild
  cases hfind : revisions.reverse.find? fun revision => revision.1 == e.1 with
  | none => simp [hfind] at hchild
  | some revision =>
      have hparent : revision.1 = e.1 := by simpa using List.find?_some hfind
      have hmem : revision ∈ revisions := List.mem_reverse.1 (List.mem_of_find?_eq_some hfind)
      exact List.mem_toFinset.2 (List.mem_map.2 ⟨revision, hmem, hparent⟩)

end Graph

end Revisions

/-- After any revisions the graph holds what the last revisions of the parents say. The children
of a key are those of its last revision, without later repetitions and in reverse order; parents
and children answer to each other, each at most once; the parents of a key come in the order of
their last revisions, the most recent one first; the edges are counted by parents, and the nodes
are the keys that were ever mentioned. -/
theorem adjacency_exact (revisions : Revisions) :
    let g := revisions.graph
    (∀ parent, g.children parent = (revisions.lastChildren parent).eraseDups.reverse) ∧
    (∀ parent, parent ∉ revisions.map Prod.fst → g.children parent = []) ∧
    (∀ parent child, parent ∈ g.parents child ↔ child ∈ g.children parent) ∧
    (∀ key, (g.children key).Nodup ∧ (g.parents key).Nodup) ∧
    (∀ child, g.parents child =
      revisions.recentParents.filter fun parent => decide (child ∈ g.children parent)) ∧
    g.edgeCount = ∑ parent ∈ (revisions.map Prod.fst).toFinset, (g.children parent).length ∧
    (∀ key, g.contains key = true ↔
      ∃ revision ∈ revisions, key = revision.1 ∨ key ∈ revision.2) ∧
    g.nodeCount = revisions.mentioned.toFinset.card := by
  intro g
  have hedges : g.edges.Nodup := revisions.nodup_edges_graph
  refine ⟨revisions.children_graph, ?_, mem_parents_iff_mem_children g,
    fun key => ⟨nodup_children hedges key, nodup_parents hedges key⟩, ?_,
    edgeCount_eq_sum fun e he => revisions.mem_parents_of_edge he, ?_, ?_⟩
  · intro parent hnever
    rw [List.eq_nil_iff_forall_not_mem]
    intro child hchild
    have hparent := revisions.mem_parents_of_edge ((mem_children_iff g parent child).1 hchild)
    exact hnever (List.mem_toFinset.1 hparent)
  · intro child
    rw [revisions.parents_graph]
    refine List.filter_congr fun parent _ => ?_
    rw [decide_eq_decide, revisions.mem_children_graph_iff]
  · intro key
    rw [contains, List.contains_iff_mem, revisions.mem_nodes_graph_iff, Revisions.mentioned,
      List.mem_flatMap]
    simp only [List.mem_cons]
  · -- a list without repetitions is as long as the set of its members is large
    have hnodes : g.nodes.toFinset = revisions.mentioned.toFinset := by
      ext key
      rw [List.mem_toFinset, List.mem_toFinset, revisions.mem_nodes_graph_iff]
    rw [← hnodes, List.toFinset_card_of_nodup revisions.nodup_nodes_graph, nodeCount]

/-- A parent that is revised again comes in front, although its edge is an old one. -/
example : (Revisions.graph [("A", ["C"]), ("B", ["C", "C"]), ("A", ["B", "C"])]).parents "C" =
    ["A", "B"] := by decide

end CompositionGraph

end SchemaCatalog
