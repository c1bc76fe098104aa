import Mathlib.Data.List.Perm.Subperm
import Mathlib.Logic.Relation
import SchemaCatalog.Composition.Graph

/-!
# Reachability in the composition graph

A save replaces the edges from one key. `Redirected` is a relation after such a change:
a cycle through the changed key leads from a new target back to it along old edges
(`transGen_redirected_self_iff`), and a change that closes no such cycle keeps the whole
relation without cycles (`Acyclic.redirected`).

The closures of a graph are breadth-first searches with as many layers as there are
nodes. In a grounded graph, whose edges run between its nodes, they list exactly the
other keys that can be reached (`mem_ancestors_iff`, `mem_descendants_iff`). The edges
after `setChildren` are the redirected ones (`linked_setChildren`), and the graph stays
grounded (`Grounded.setChildren`).
-/

set_option autoImplicit false

namespace SchemaCatalog

open Relation

/-! ## Redirected edges -/

section Redirected

variable {r : String → String → Prop} {source : String} {targets : List String}

/-- No key is reached from itself along one or more steps. -/
def Acyclic (r : String → String → Prop) : Prop := ∀ key, ¬ TransGen r key key

/-- A relation whose steps from one key are replaced by steps to the keys of a list. -/
def Redirected (r : String → String → Prop) (source : String) (targets : List String)
    (a b : String) : Prop :=
  if a = source then b ∈ targets else r a b

theorem redirected_self_iff (b : String) : Redirected r source targets source b ↔ b ∈ targets := by
  simp [Redirected]

theorem redirected_iff_of_ne {a : String} (h : a ≠ source) (b : String) :
    Redirected r source targets a b ↔ r a b := by
  simp [Redirected, h]

/-- The way to the changed key is made of unchanged steps, up to its first arrival. -/
theorem reflTransGen_redirected_iff (a : String) :
    ReflTransGen (Redirected r source targets) a source ↔ ReflTransGen r a source := by
  -- the way is followed from its start: at `source` it is over, elsewhere the steps agree
  constructor
  · intro h
    induction h using ReflTransGen.head_induction_on with
    | refl => exact .refl
    | @head a b hab _ ih =>
        by_cases ha : a = source
        · rw [ha]
        · exact .head ((redirected_iff_of_ne ha b).1 hab) ih
  · intro h
    induction h using ReflTransGen.head_induction_on with
    | refl => exact .refl
    | @head a b hab _ ih =>
        by_cases ha : a = source
        · rw [ha]
        · exact .head ((redirected_iff_of_ne ha b).2 hab) ih

/-- A cycle through the changed key leads from a new target back along the old steps. -/
theorem transGen_redirected_self_iff :
    TransGen (Redirected r source targets) source source ↔
      ∃ target ∈ targets, ReflTransGen r target source := by
  rw [TransGen.head'_iff]
  constructor
  · rintro ⟨target, hstep, hrest⟩
    exact ⟨target, (redirected_self_iff target).1 hstep,
      (reflTransGen_redirected_iff target).1 hrest⟩
  · rintro ⟨target, hmem, hrest⟩
    exact ⟨target, (redirected_self_iff target).2 hmem,
      (reflTransGen_redirected_iff target).2 hrest⟩

/-- A way of changed steps is a way of old steps or passes through the changed key. -/
theorem transGen_of_redirected {a b : String} (h : TransGen (Redirected r source targets) a b) :
    TransGen r a b ∨ ReflTransGen (Redirected r source targets) a source ∧
      TransGen (Redirected r source targets) source b := by
  -- a step from `source` may be new, whatever follows it
  induction h using TransGen.head_induction_on with
  | @single a hab =>
      by_cases ha : a = source
      · rw [ha] at hab ⊢
        exact Or.inr ⟨.refl, .single hab⟩
      · exact Or.inl (.single ((redirected_iff_of_ne ha b).1 hab))
  | @head a c hac hcb ih =>
      by_cases ha : a = source
      · rw [ha] at hac ⊢
        exact Or.inr ⟨.refl, .head hac hcb⟩
      · rcases ih with hold | ⟨hto, hfrom⟩
        · exact Or.inl (.head ((redirected_iff_of_ne ha c).1 hac) hold)
        · exact Or.inr ⟨.head hac hto, hfrom⟩

/-- Only a cycle through the changed key can be new. -/
theorem Acyclic.redirected (h : Acyclic r)
    (hsource : ¬ TransGen (Redirected r source targets) source source) :
    Acyclic (Redirected r source targets) := by
  intro key hcycle
  rcases transGen_of_redirected hcycle with hold | ⟨hto, hfrom⟩
  · exact h key hold
  · exact hsource (hfrom.trans_left hto)

end Redirected

/-! ## Breadth-first search -/

namespace CompositionGraph

section Search

variable {next : String → List String}

/-- One step of a search. -/
abbrev Next (next : String → List String) (a b : String) : Prop := b ∈ next a

theorem nodup_eraseDups (keys : List String) : keys.eraseDups.Nodup := by
  cases keys with
  | nil => exact List.nodup_nil
  | cons key rest =>
      rw [List.eraseDups_cons, List.nodup_cons]
      refine ⟨?_, nodup_eraseDups _⟩
      rw [List.mem_eraseDups]
      simp
termination_by keys.length
decreasing_by
  have h := List.length_filter_le (fun other => !other == key) rest
  rw [List.length_cons]
  omega

theorem mem_newcomers_iff (reached layer : List String) (key : String) :
    key ∈ newcomers next reached layer ↔ (∃ a ∈ layer, key ∈ next a) ∧ key ∉ reached := by
  simp [newcomers]

theorem nodup_newcomers (reached layer : List String) :
    (newcomers next reached layer).Nodup :=
  nodup_eraseDups _

/-- The state of a search between two layers: every reached key lies in the space, and
only from the last layer can a step lead to a key that was not reached. -/
structure Frontier (next : String → List String) (space reached layer : List String) : Prop where
  nodup : reached.Nodup
  within : reached ⊆ space
  space_closed : ∀ a, ∀ b ∈ next a, b ∈ space
  layer_reached : layer ⊆ reached
  inner_closed : ∀ a ∈ reached, a ∉ layer → ∀ b ∈ next a, b ∈ reached

theorem Frontier.advance {space reached layer : List String}
    (h : Frontier next space reached layer) :
    Frontier next space (reached ++ newcomers next reached layer)
      (newcomers next reached layer) where
  nodup := by
    refine List.nodup_append.2 ⟨h.nodup, nodup_newcomers reached layer, ?_⟩
    rintro a ha b hb rfl
    exact ((mem_newcomers_iff reached layer a).1 hb).2 ha
  within := by
    refine List.append_subset.2 ⟨h.within, ?_⟩
    intro key hkey
    obtain ⟨⟨a, -, hnext⟩, -⟩ := (mem_newcomers_iff reached layer key).1 hkey
    exact h.space_closed a key hnext
  space_closed := h.space_closed
  layer_reached := List.subset_append_right _ _
  inner_closed := by
    intro a ha hnew b hb
    rcases List.mem_append.1 ha with ha | ha
    · by_cases hlayer : a ∈ layer
      · by_cases hreached : b ∈ reached
        · exact List.mem_append_left _ hreached
        · exact List.mem_append_right _
            ((mem_newcomers_iff reached layer b).2 ⟨⟨a, hlayer, hb⟩, hreached⟩)
      · exact List.mem_append_left _ (h.inner_closed a ha hlayer b hb)
    · exact absurd ha hnew

/-- Everything behind a layer is reached from it and was not reached before. -/
theorem reached_of_mem_layersFrom {bound : Nat} {reached layer : List String} {key : String}
    (h : key ∈ layersFrom next bound reached layer) :
    (∃ a ∈ layer, TransGen (Next next) a key) ∧ key ∉ reached := by
  induction bound generalizing reached layer with
  | zero => simp [layersFrom] at h
  | succ bound ih =>
      have hsplit : key ∈ newcomers next reached layer ∨
          key ∈ layersFrom next bound (reached ++ newcomers next reached layer)
            (newcomers next reached layer) := by
        simp only [layersFrom] at h
        split at h
        · simp at h
        · rename_i hnew
          exact List.mem_append.1 h
      rcases hsplit with hnew | hlater
      · obtain ⟨⟨a, ha, hstep⟩, hnot⟩ := (mem_newcomers_iff reached layer key).1 hnew
        exact ⟨⟨a, ha, .single hstep⟩, hnot⟩
      · obtain ⟨⟨b, hb, hway⟩, hnot⟩ := ih hlater
        obtain ⟨⟨a, ha, hstep⟩, -⟩ := (mem_newcomers_iff reached layer b).1 hb
        exact ⟨⟨a, ha, .head hstep hway⟩, fun hin => hnot (List.mem_append_left _ hin)⟩

/-- No layer lies behind the start yet, so nothing is asked of the inner keys. -/
theorem frontier_start {space : List String} (hspace : ∀ a, ∀ b ∈ next a, b ∈ space)
    {key : String} (hkey : key ∈ space) : Frontier next space [key] [key] where
  nodup := by simp
  within := by simpa using hkey
  space_closed := hspace
  layer_reached := fun _ h => h
  inner_closed := fun _ ha hnot => absurd ha hnot

/-- As many reached keys as there are in the space fill it, and no step leads out of them. -/
theorem Frontier.next_reached {space reached layer : List String}
    (h : Frontier next space reached layer) (hfull : space.length ≤ reached.length) {a b : String}
    (hb : b ∈ next a) : b ∈ reached := by
  have hperm : reached.Perm space := (h.nodup.subperm h.within).perm_of_length_le hfull
  exact hperm.mem_iff.2 (h.space_closed a b hb)

/-- A search with enough layers ends where no step leads out. -/
theorem closed_layersFrom {space : List String} {bound : Nat} {reached layer : List String}
    (h : Frontier next space reached layer) (hbound : space.length ≤ bound + reached.length) :
    ∀ a ∈ reached ++ layersFrom next bound reached layer, ∀ b ∈ next a,
      b ∈ reached ++ layersFrom next bound reached layer := by
  induction bound generalizing reached layer with
  | zero =>
      intro a _ b hb
      exact List.mem_append_left _ (h.next_reached (by omega) hb)
  | succ bound ih =>
      simp only [layersFrom]
      split
      · rename_i hnone
        simp only [List.append_nil]
        intro a ha b hb
        by_cases hlayer : a ∈ layer
        · by_contra hnot
          have hnew := (mem_newcomers_iff reached layer b).2 ⟨⟨a, hlayer, hb⟩, hnot⟩
          simp [hnone] at hnew
        · exact h.inner_closed a ha hlayer b hb
      · rename_i hsome
        -- a layer of new keys uses up one of the bound and leaves less of the space
        rw [← List.append_assoc]
        refine ih h.advance ?_
        have hpos : 0 < (newcomers next reached layer).length :=
          List.length_pos_iff.2 hsome
        rw [List.length_append]
        omega

theorem mem_layersFrom_iff (space : List String) {bound : Nat} {key other : String}
    (hspace : ∀ a, ∀ b ∈ next a, b ∈ space) (hkey : key ∈ space)
    (hbound : space.length ≤ bound + 1) :
    other ∈ layersFrom next bound [key] [key] ↔
      other ≠ key ∧ ReflTransGen (Next next) key other := by
  constructor
  · intro h
    obtain ⟨⟨a, ha, hway⟩, hnot⟩ := reached_of_mem_layersFrom h
    rw [List.mem_singleton.1 ha] at hway
    exact ⟨fun heq => hnot (List.mem_singleton.2 heq), hway.to_reflTransGen⟩
  · rintro ⟨hne, hway⟩
    have hmem : other ∈ [key] ++ layersFrom next bound [key] [key] := by
      clear hne
      induction hway with
      | refl => simp
      | @tail b c _ hstep ih =>
          exact closed_layersFrom (frontier_start hspace hkey) hbound b ih c hstep
    exact (List.mem_append.1 hmem).resolve_left fun hin => hne (List.mem_singleton.1 hin)

end Search

/-! ## Edges and closures -/

/-- An edge from a parent to a child. -/
def Linked (g : CompositionGraph) (parent child : String) : Prop := (parent, child) ∈ g.edges

/-- Every edge runs between nodes. -/
def Grounded (g : CompositionGraph) : Prop :=
  ∀ parent child, g.Linked parent child → parent ∈ g.nodes ∧ child ∈ g.nodes

theorem mem_closure_iff {g : CompositionGraph} {next : String → List String}
    (h : ∀ a, ∀ b ∈ next a, b ∈ g.nodes) (key other : String) :
    other ∈ g.closure next key ↔ other ≠ key ∧ ReflTransGen (Next next) key other :=
  mem_layersFrom_iff (key :: g.nodes)
    (fun a b hb => List.mem_cons_of_mem key (h a b hb)) List.mem_cons_self (Nat.le_refl _)

/-- A step from parents to children goes along an edge. -/
theorem next_children (g : CompositionGraph) : Next g.children = g.Linked := by
  funext a b
  exact propext (mem_children_iff g a b)

/-- A step from children to parents goes against an edge. -/
theorem next_parents (g : CompositionGraph) : Next g.parents = Function.swap g.Linked := by
  funext a b
  exact propext (mem_parents_iff g b a)

theorem Grounded.children_within {g : CompositionGraph} (h : g.Grounded) :
    ∀ a, ∀ b ∈ g.children a, b ∈ g.nodes :=
  fun a b hb => (h a b ((mem_children_iff g a b).1 hb)).2

theorem Grounded.parents_within {g : CompositionGraph} (h : g.Grounded) :
    ∀ a, ∀ b ∈ g.parents a, b ∈ g.nodes :=
  fun a b hb => (h b a ((mem_parents_iff g b a).1 hb)).1

/-- The descendants of a key are the other keys that it leads to. -/
theorem mem_descendants_iff {g : CompositionGraph} (h : g.Grounded) (key other : String) :
    other ∈ g.descendants key ↔ other ≠ key ∧ ReflTransGen g.Linked key other := by
  rw [descendants, mem_closure_iff h.children_within, next_children]

/-- The ancestors of a key are the other keys that lead to it. -/
theorem mem_ancestors_iff {g : CompositionGraph} (h : g.Grounded) (key other : String) :
    other ∈ g.ancestors key ↔ other ≠ key ∧ ReflTransGen g.Linked other key := by
  rw [ancestors, mem_closure_iff h.parents_within, next_parents, reflTransGen_swap]

/-! ## Replaced children -/

theorem edges_foldl_link (parent : String) (children : List String) (g : CompositionGraph) :
    (children.foldl (fun g child => g.link parent child) g).edges =
      (children.map fun child => (parent, child)).reverse ++ g.edges := by
  induction children generalizing g with
  | nil => rfl
  | cons child rest ih =>
      have hlink : (g.link parent child).edges = (parent, child) :: g.edges := by
        simp only [link, mention]
        split <;> rfl
      rw [List.foldl_cons, ih, hlink, List.map_cons, List.reverse_cons, List.append_assoc]
      rfl

theorem mem_nodes_mention_iff (g : CompositionGraph) (key other : String) :
    other ∈ (g.mention key).nodes ↔ other = key ∨ other ∈ g.nodes := by
  simp only [mention]
  split
  · rename_i hin
    exact ⟨Or.inr, fun h => h.elim (fun heq => heq ▸ hin) id⟩
  · simp [or_comm]

theorem mem_nodes_foldl_link_iff (parent : String) (children : List String)
    (g : CompositionGraph) (key : String) :
    key ∈ (children.foldl (fun g child => g.link parent child) g).nodes ↔
      key ∈ children ∨ key ∈ g.nodes := by
  induction children generalizing g with
  | nil => simp
  | cons child rest ih =>
      have hlink : key ∈ (g.link parent child).nodes ↔ key = child ∨ key ∈ g.nodes :=
        mem_nodes_mention_iff g child key
      rw [List.foldl_cons, ih, hlink, List.mem_cons]
      tauto

/-- The new edges come first, the last child at the front; those from other parents stay. -/
theorem edges_setChildren (g : CompositionGraph) (parent : String) (children : List String) :
    (g.setChildren parent children).edges =
      (children.eraseDups.map fun child => (parent, child)).reverse ++
        g.edges.filter fun e => e.1 != parent := by
  have hmention : (g.mention parent).edges = g.edges := by
    simp only [mention]
    split <;> rfl
  rw [setChildren, edges_foldl_link, unlink, hmention]

theorem mem_nodes_setChildren_iff (g : CompositionGraph) (parent : String)
    (children : List String) (key : String) :
    key ∈ (g.setChildren parent children).nodes ↔
      key ∈ children ∨ key = parent ∨ key ∈ g.nodes := by
  rw [setChildren, mem_nodes_foldl_link_iff, List.mem_eraseDups]
  exact or_congr_right (mem_nodes_mention_iff g parent key)

/-- Replacing the children of a key redirects its edges. -/
theorem linked_setChildren (g : CompositionGraph) (parent : String) (children : List String) :
    (g.setChildren parent children).Linked = Redirected g.Linked parent children := by
  funext a b
  refine propext ?_
  by_cases ha : a = parent
  · rw [ha, redirected_self_iff]
    simp [Linked, edges_setChildren]
  · rw [redirected_iff_of_ne ha]
    simp [Linked, edges_setChildren, ha, Ne.symm ha]

theorem Grounded.setChildren {g : CompositionGraph} (h : g.Grounded) (parent : String)
    (children : List String) : (g.setChildren parent children).Grounded := by
  intro a b hab
  rw [mem_nodes_setChildren_iff, mem_nodes_setChildren_iff]
  rw [linked_setChildren] at hab
  by_cases ha : a = parent
  · rw [ha, redirected_self_iff] at hab
    exact ⟨Or.inr (Or.inl ha), Or.inl hab⟩
  · rw [redirected_iff_of_ne ha] at hab
    obtain ⟨hparent, hchild⟩ := h a b hab
    exact ⟨Or.inr (Or.inr hparent), Or.inr (Or.inr hchild)⟩

theorem grounded_empty : empty.Grounded := by
  intro a b h
  simp [Linked, empty] at h

end CompositionGraph

end SchemaCatalog
