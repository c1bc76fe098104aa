import Mathlib.Order.Lattice.Nat
import SchemaCatalog.Proofs.Composition.Reachability

/-!
# Distances in the composition graph

The distance of two keys along a relation is the least number of steps on a way between them
(`way_distance`, `distance_le`), and it is the same against the relation (`distance_swap`).

A breadth-first search lists the reached keys nearest first. A layer at some depth holds
exactly the keys at that distance (`Layer`), the next one those one step further away
(`Layer.advance`), and so the closures of a graph list each key once (`nodup_closure`) and in
an order of distances that never decreases (`closure_nearest_first`).
-/

set_option autoImplicit false

namespace SchemaCatalog

open Relation

/-! ## Ways and their lengths -/

/-- A way of a number of steps from one key to another. -/
inductive Way (r : String → String → Prop) : Nat → String → String → Prop
  | stay (a : String) : Way r 0 a a
  | step {n : Nat} {a b c : String} (hway : Way r n a b) (hstep : r b c) : Way r (n + 1) a c

/-- The least number of steps on a way from one key to another. -/
noncomputable def distance (r : String → String → Prop) (a b : String) : Nat :=
  sInf {n | Way r n a b}

section Distance

variable {r : String → String → Prop} {a b c : String} {n : Nat}

theorem Way.reflTransGen (h : Way r n a b) : ReflTransGen r a b := by
  induction h with
  | stay => exact .refl
  | step _ hstep ih => exact ih.tail hstep

theorem exists_way (h : ReflTransGen r a b) : ∃ n, Way r n a b := by
  induction h with
  | refl => exact ⟨0, .stay a⟩
  | tail _ hstep ih =>
      obtain ⟨n, hway⟩ := ih
      exact ⟨n + 1, hway.step hstep⟩

theorem Way.head (hstep : r a b) (h : Way r n b c) : Way r (n + 1) a c := by
  induction h with
  | stay => exact .step (.stay a) hstep
  | step _ hlast ih => exact (ih hstep).step hlast

theorem Way.swap (h : Way r n a b) : Way (Function.swap r) n b a := by
  induction h with
  | stay => exact .stay _
  | step _ hstep ih => exact ih.head hstep

/-- A way is no shorter than the distance of its ends. -/
theorem distance_le (h : Way r n a b) : distance r a b ≤ n := Nat.sInf_le h

/-- Some way to a reachable key is as short as the distance. -/
theorem way_distance (h : ReflTransGen r a b) : Way r (distance r a b) a b :=
  Nat.sInf_mem (exists_way h)

theorem distance_swap : distance (Function.swap r) b a = distance r a b := by
  have hways : {n | Way (Function.swap r) n b a} = {n | Way r n a b} :=
    Set.ext fun n => ⟨Way.swap, Way.swap⟩
  rw [distance, hways, distance]

/-- A step leads to a key that is at most one further away. -/
theorem distance_step_le (h : ReflTransGen r a b) (hstep : r b c) :
    distance r a c ≤ distance r a b + 1 :=
  distance_le ((way_distance h).step hstep)

/-- A key other than the start is reached from one that is one nearer. -/
theorem exists_nearer (h : ReflTransGen r a c) (hpos : distance r a c = n + 1) :
    ∃ b, ReflTransGen r a b ∧ distance r a b = n ∧ r b c := by
  have hway := way_distance h
  rw [hpos] at hway
  cases hway with
  | @step _ _ b _ hfront hstep =>
      have hle := distance_le hfront
      have hstep_le := distance_step_le hfront.reflTransGen hstep
      exact ⟨b, hfront.reflTransGen, by omega, hstep⟩

end Distance

/-! ## The order of a search -/

namespace CompositionGraph

section Search

variable {next : String → List String} {start : String}

/-- A search at some depth has reached the keys up to that distance from its start, and the
layer holds those at that distance. -/
structure Layer (next : String → List String) (start : String) (depth : Nat)
    (reached layer : List String) : Prop where
  mem_reached_iff : ∀ key, key ∈ reached ↔
    ReflTransGen (Next next) start key ∧ distance (Next next) start key ≤ depth
  mem_layer_iff : ∀ key, key ∈ layer ↔
    ReflTransGen (Next next) start key ∧ distance (Next next) start key = depth

/-- Only the start is at distance zero. -/
theorem layer_start : Layer next start 0 [start] [start] := by
  have hzero : ∀ key, key ∈ [start] ↔
      ReflTransGen (Next next) start key ∧ distance (Next next) start key = 0 := by
    intro key
    rw [List.mem_singleton]
    constructor
    · rintro rfl
      exact ⟨.refl, Nat.le_zero.1 (distance_le (.stay key))⟩
    · rintro ⟨hreach, hnone⟩
      have hway := way_distance hreach
      rw [hnone] at hway
      cases hway
      rfl
  refine ⟨fun key => ?_, hzero⟩
  rw [hzero, Nat.le_zero]

/-- The newcomers behind a layer are the keys one step further away. -/
theorem Layer.mem_newcomers_iff {depth : Nat} {reached layer : List String}
    (h : Layer next start depth reached layer) (key : String) :
    key ∈ newcomers next reached layer ↔
      ReflTransGen (Next next) start key ∧ distance (Next next) start key = depth + 1 := by
  rw [CompositionGraph.mem_newcomers_iff, h.mem_reached_iff]
  constructor
  · rintro ⟨⟨a, ha, hstep⟩, hnot⟩
    obtain ⟨hreach, hdepth⟩ := (h.mem_layer_iff a).1 ha
    have hkey : ReflTransGen (Next next) start key := hreach.tail hstep
    have hle := distance_step_le hreach hstep
    have hlt : ¬ distance (Next next) start key ≤ depth := fun hle => hnot ⟨hkey, hle⟩
    exact ⟨hkey, by omega⟩
  · rintro ⟨hkey, hdepth⟩
    obtain ⟨a, hreach, hnearer, hstep⟩ := exists_nearer hkey hdepth
    exact ⟨⟨a, (h.mem_layer_iff a).2 ⟨hreach, hnearer⟩, hstep⟩, fun hold => by omega⟩

theorem Layer.advance {depth : Nat} {reached layer : List String}
    (h : Layer next start depth reached layer) :
    Layer next start (depth + 1) (reached ++ newcomers next reached layer)
      (newcomers next reached layer) where
  mem_reached_iff := by
    intro key
    rw [List.mem_append, h.mem_reached_iff, h.mem_newcomers_iff, ← and_or_left]
    exact and_congr_right fun _ => by omega
  mem_layer_iff := h.mem_newcomers_iff

/-- Behind a layer no key is nearer than one in front of it. -/
theorem Layer.nearest_first {depth bound : Nat} {reached layer : List String}
    (h : Layer next start depth reached layer) :
    ((layersFrom next bound reached layer).map (distance (Next next) start)).Pairwise (· ≤ ·) ∧
      ∀ key ∈ layersFrom next bound reached layer, depth < distance (Next next) start key := by
  induction bound generalizing depth reached layer with
  | zero => simp [layersFrom]
  | succ bound ih =>
      rw [layersFrom]
      split
      · simp
      · obtain ⟨hrest, hfurther⟩ := ih h.advance
        have hnew : ∀ key ∈ newcomers next reached layer,
            distance (Next next) start key = depth + 1 :=
          fun key hkey => ((h.mem_newcomers_iff key).1 hkey).2
        refine ⟨?_, fun key hkey => ?_⟩
        · rw [List.map_append, List.pairwise_append]
          refine ⟨?_, hrest, ?_⟩
          · -- the keys of one layer are all at the same distance
            refine List.pairwise_map.2 (List.Pairwise.imp_of_mem ?_ (nodup_newcomers reached layer))
            intro a b ha hb _
            rw [hnew a ha, hnew b hb]
          · intro m hm n hn
            obtain ⟨a, ha, rfl⟩ := List.mem_map.1 hm
            obtain ⟨b, hb, rfl⟩ := List.mem_map.1 hn
            have hlt := hfurther b hb
            rw [hnew a ha]
            omega
        · rcases List.mem_append.1 hkey with hkey | hkey
          · rw [hnew key hkey]
            omega
          · have hlt := hfurther key hkey
            omega

/-- No key is listed twice behind a layer. -/
theorem nodup_layersFrom (bound : Nat) (reached layer : List String) :
    (layersFrom next bound reached layer).Nodup := by
  induction bound generalizing reached layer with
  | zero => simp [layersFrom]
  | succ bound ih =>
      rw [layersFrom]
      split
      · exact List.nodup_nil
      · refine List.nodup_append.2 ⟨nodup_newcomers reached layer, ih _ _, ?_⟩
        rintro a ha b hb rfl
        exact (reached_of_mem_layersFrom hb).2 (List.mem_append_right _ ha)

end Search

/-! ## The order of closures -/

theorem nodup_closure (g : CompositionGraph) (next : String → List String) (key : String) :
    (g.closure next key).Nodup :=
  nodup_layersFrom _ _ _

/-- A closure lists the keys that it reaches nearest first. -/
theorem closure_nearest_first (g : CompositionGraph) (next : String → List String)
    (key : String) :
    ((g.closure next key).map (distance (Next next) key)).Pairwise (· ≤ ·) :=
  layer_start.nearest_first.1

/-- The ancestors of a key come nearest first. -/
theorem ancestors_nearest_first (g : CompositionGraph) (key : String) :
    ((g.ancestors key).map fun other => distance g.Linked other key).Pairwise (· ≤ ·) := by
  have hdistance : (fun other => distance g.Linked other key) = distance (Next g.parents) key := by
    funext other
    rw [next_parents, distance_swap]
  rw [hdistance]
  exact closure_nearest_first g g.parents key

/-! ## Lists of children -/

/-- Each edge stands in a graph once, however often children are replaced. -/
theorem nodup_edges_setChildren {g : CompositionGraph} (h : g.edges.Nodup) (parent : String)
    (children : List String) : (g.setChildren parent children).edges.Nodup := by
  rw [edges_setChildren, List.nodup_append]
  refine ⟨?_, h.filter _, ?_⟩
  · refine List.nodup_reverse.2 ((nodup_eraseDups children).map ?_)
    intro a b heq
    exact (Prod.mk.inj heq).2
  · rintro a ha b hb rfl
    obtain ⟨child, -, rfl⟩ := List.mem_map.1 (List.mem_reverse.1 ha)
    simp at hb

theorem nodup_children {g : CompositionGraph} (h : g.edges.Nodup) (key : String) :
    (g.children key).Nodup := by
  refine List.pairwise_map.2 (List.Pairwise.imp_of_mem ?_ (h.filter _))
  intro a b ha hb hne heq
  have hfirst : a.1 = key := by simpa using (List.mem_filter.1 ha).2
  have hsecond : b.1 = key := by simpa using (List.mem_filter.1 hb).2
  exact hne (Prod.ext (hfirst.trans hsecond.symm) heq)

end CompositionGraph

end SchemaCatalog
