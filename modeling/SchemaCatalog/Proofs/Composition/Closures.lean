import SchemaCatalog.Proofs.Composition.Revisions

/-!
# Closures of the composition graph

A closure is computed layer by layer. It is the result of a search that works through a queue:
the key in front is taken out, its neighbours that were not reached before go to the end, and
the search is over when the queue is empty (`Searches`). The search ends on every graph, with
cycles or without, because each key enters the queue once, and what it finds is the closure
(`searches_layersFrom`).

After any revisions the closures list the keys that can be reached from a key, and those from
which it can be reached, each once and nearest first (`closures_exact`).
-/

set_option autoImplicit false

namespace SchemaCatalog

open Relation

namespace CompositionGraph

/-! ## Searches through a queue -/

section Search

variable {next : String → List String}

/-- A search with a queue and the keys that were reached so far ends, and these keys are found on
the way. -/
inductive Searches (next : String → List String) :
    List String → List String → List String → Prop
  | done (reached : List String) : Searches next [] reached []
  | expand {key : String} {queue reached found : List String}
      (hrest : Searches next (queue ++ newcomers next reached [key])
        (reached ++ newcomers next reached [key]) found) :
      Searches next (key :: queue) reached (newcomers next reached [key] ++ found)

theorem Searches.unique {queue reached found found' : List String}
    (h : Searches next queue reached found) (h' : Searches next queue reached found') :
    found = found' := by
  induction h generalizing found' with
  | done reached =>
      cases h' with
      | done => rfl
  | expand _ ih =>
      cases h' with
      | expand hrest' => rw [ih hrest']

/-- The newcomers behind the first key of a layer come first, and they are no newcomers again
behind the other keys. -/
theorem newcomers_cons (reached : List String) (key : String) (rest : List String) :
    newcomers next reached (key :: rest) =
      newcomers next reached [key] ++
        newcomers next (reached ++ newcomers next reached [key]) rest := by
  have hrest : ((rest.flatMap next).filter fun k => !reached.contains k).removeAll
        ((next key).filter fun k => !reached.contains k) =
      (rest.flatMap next).filter fun k =>
        !(reached ++ newcomers next reached [key]).contains k := by
    rw [List.removeAll, List.filter_filter]
    refine List.filter_congr fun k _ => ?_
    by_cases hk : k ∈ reached
    · simp [hk]
    · simp [hk, newcomers]
  rw [newcomers, List.flatMap_cons, List.filter_append, List.eraseDups_append, hrest]
  simp [newcomers]

/-- A queue is worked through layer by layer: what waits behind a layer is reached after the
layer, and before the newcomers that the layer leads to. -/
theorem searches_layer {layer behind reached found : List String}
    (h : Searches next (behind ++ newcomers next reached layer)
      (reached ++ newcomers next reached layer) found) :
    Searches next (layer ++ behind) reached (newcomers next reached layer ++ found) := by
  induction layer generalizing behind reached with
  | nil => simpa [newcomers] using h
  | cons key rest ih =>
      rw [newcomers_cons] at h ⊢
      rw [List.cons_append, List.append_assoc]
      apply Searches.expand
      rw [List.append_assoc]
      apply ih
      simpa only [List.append_assoc] using h

/-- With nothing behind it a layer is followed by its newcomers. -/
theorem searches_next_layer {layer reached found : List String}
    (h : Searches next (newcomers next reached layer) (reached ++ newcomers next reached layer)
      found) : Searches next layer reached (newcomers next reached layer ++ found) := by
  have hlayer : Searches next (layer ++ []) reached (newcomers next reached layer ++ found) :=
    searches_layer h
  rwa [List.append_nil] at hlayer

/-- Without newcomers nothing goes to the end of the queue, and it runs empty. -/
theorem searches_of_no_newcomers {layer reached : List String}
    (hnone : newcomers next reached layer = []) : Searches next layer reached [] := by
  have hempty : Searches next (newcomers next reached layer)
      (reached ++ newcomers next reached layer) [] := by
    rw [hnone]
    exact Searches.done _
  have hlayer := searches_next_layer hempty
  rwa [hnone] at hlayer

/-- With enough layers the search through the queue ends, and it finds the layers. -/
theorem searches_layersFrom {space : List String} {bound : Nat} {reached layer : List String}
    (h : Frontier next space reached layer) (hbound : space.length ≤ bound + reached.length) :
    Searches next layer reached (layersFrom next bound reached layer) := by
  induction bound generalizing reached layer with
  | zero =>
      have hnone : newcomers next reached layer = [] := by
        rw [List.eq_nil_iff_forall_not_mem]
        intro key hkey
        obtain ⟨⟨a, -, hstep⟩, hnew⟩ := (mem_newcomers_iff reached layer key).1 hkey
        exact hnew (h.next_reached (by omega) hstep)
      exact searches_of_no_newcomers hnone
  | succ bound ih =>
      rw [layersFrom]
      split
      · rename_i hnone
        exact searches_of_no_newcomers hnone
      · rename_i hsome
        have hpos : 0 < (newcomers next reached layer).length := List.length_pos_iff.2 hsome
        refine searches_next_layer (ih h.advance ?_)
        rw [List.length_append]
        omega

end Search

/-! ## Exact closures -/

/-- A list holds the keys other than one that can be reached from it along one or more steps,
each once, and those at a shorter distance come first. -/
structure ListsReachable (r : String → String → Prop) (key : String) (listed : List String) :
    Prop where
  mem_iff : ∀ other, other ∈ listed ↔ other ≠ key ∧ TransGen r key other
  nodup : listed.Nodup
  nearest_first : (listed.map (distance r key)).Pairwise (· ≤ ·)

section Exact

variable {g : CompositionGraph} {next : String → List String}

theorem listsReachable_closure (h : ∀ a, ∀ b ∈ next a, b ∈ g.nodes) (key : String) :
    ListsReachable (Next next) key (g.closure next key) where
  mem_iff := by
    intro other
    rw [mem_closure_iff h, reflTransGen_iff_eq_or_transGen]
    constructor
    · rintro ⟨hne, heq | hway⟩
      · exact absurd heq hne
      · exact ⟨hne, hway⟩
    · rintro ⟨hne, hway⟩
      exact ⟨hne, Or.inr hway⟩
  nodup := nodup_closure g next key
  nearest_first := closure_nearest_first g next key

/-- A closure is what a search through a queue finds that starts with its key. -/
theorem searches_closure_iff (h : ∀ a, ∀ b ∈ next a, b ∈ g.nodes) (key : String)
    (found : List String) :
    Searches next [key] [key] found ↔ found = g.closure next key := by
  have hspace : ∀ a, ∀ b ∈ next a, b ∈ key :: g.nodes :=
    fun a b hb => List.mem_cons_of_mem key (h a b hb)
  have hsearch : Searches next [key] [key] (g.closure next key) :=
    searches_layersFrom (frontier_start hspace List.mem_cons_self) (Nat.le_refl _)
  constructor
  · exact fun hfound => hfound.unique hsearch
  · rintro rfl
    exact hsearch

/-- Nothing is reached from a key that the graph does not know. -/
theorem ListsReachable.eq_nil {r : String → String → Prop} {key : String} {listed : List String}
    (h : ListsReachable r key listed) (hnone : ∀ other, ¬ r key other) : listed = [] := by
  rw [List.eq_nil_iff_forall_not_mem]
  intro other hother
  obtain ⟨-, hway⟩ := (h.mem_iff other).1 hother
  obtain ⟨first, hfirst, -⟩ := TransGen.head'_iff.1 hway
  exact hnone first hfirst

end Exact

/-- After any revisions, and whatever cycles these close, the descendants of a key are the keys
that it leads to and its ancestors those that lead to it, listed each once and nearest first; both
are what a search through a queue ends with. A key that was never mentioned has none, and a key is
a descendant of another exactly when that one is its ancestor. -/
theorem closures_exact (revisions : Revisions) (key : String) :
    let g := revisions.graph
    ListsReachable g.Linked key (g.descendants key) ∧
    ListsReachable (Function.swap g.Linked) key (g.ancestors key) ∧
    (∀ found, Searches g.children [key] [key] found ↔ found = g.descendants key) ∧
    (∀ found, Searches g.parents [key] [key] found ↔ found = g.ancestors key) ∧
    (g.contains key = false → g.descendants key = [] ∧ g.ancestors key = []) ∧
    ∀ other, other ∈ g.descendants key ↔ key ∈ g.ancestors other := by
  intro g
  have hgrounded : g.Grounded := revisions.grounded_graph
  have hdescendants : ListsReachable g.Linked key (g.descendants key) := by
    rw [← next_children]
    exact listsReachable_closure hgrounded.children_within key
  have hancestors : ∀ other, ListsReachable (Function.swap g.Linked) other (g.ancestors other) := by
    intro other
    rw [← next_parents]
    exact listsReachable_closure hgrounded.parents_within other
  refine ⟨hdescendants, hancestors key, searches_closure_iff hgrounded.children_within key,
    searches_closure_iff hgrounded.parents_within key, fun hunknown => ?_, fun other => ?_⟩
  · -- an edge in either direction would make the key a node
    have hnode : key ∉ g.nodes := by
      rw [contains, List.contains_eq_mem, decide_eq_false_iff_not] at hunknown
      exact hunknown
    exact ⟨hdescendants.eq_nil fun other hedge => hnode (hgrounded key other hedge).1,
      (hancestors key).eq_nil fun other hedge => hnode (hgrounded other key hedge).2⟩
  · rw [hdescendants.mem_iff, (hancestors other).mem_iff, transGen_swap]
    exact and_congr_left fun _ => ne_comm

end CompositionGraph

end SchemaCatalog
