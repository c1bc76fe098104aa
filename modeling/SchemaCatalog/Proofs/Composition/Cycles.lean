import Mathlib.Data.List.Flatten
import Mathlib.Data.List.Sort
import SchemaCatalog.Proofs.Composition.Arrangement

/-!
# Cycles among definitions

Definitions with distinct keys that cannot be arranged are refused with the keys that lie on a
cycle of their composition, in increasing order (`arrange_eq_error_iff`). A key from which a cycle
is only reached, or that is only reached from one, is not among them.

The same keys are found by way of the strongly connected components: they are the keys of the
components with more than one member and of those whose member is composed of itself
(`cyclicKeys_perm_components`). In whichever order the components come, and whichever way they
were found, the sorted keys are the same, and they do not depend on the order of the definitions
either (`arrange_cyclic`).
-/

set_option autoImplicit false

namespace SchemaCatalog

open Relation

/-! ## Keys on a cycle of a graph -/

namespace CompositionGraph

/-- A key lies on a cycle when it is reached from itself along one or more edges. -/
theorem onCycle_eq_true_iff {g : CompositionGraph} (h : g.Grounded) (key : String) :
    g.onCycle key = true ↔ TransGen g.Linked key key := by
  rw [onCycle, List.any_eq_true, TransGen.tail'_iff]
  refine exists_congr fun last => ?_
  have hreach : last ∈ key :: g.descendants key ↔ ReflTransGen g.Linked key last := by
    rw [List.mem_cons, mem_descendants_iff h]
    constructor
    · rintro (rfl | ⟨-, hway⟩)
      · exact .refl
      · exact hway
    · intro hway
      by_cases heq : last = key
      · exact Or.inl heq
      · exact Or.inr ⟨heq, hway⟩
  rw [hreach, List.contains_iff_mem, mem_children_iff, Linked]

/-- The edges from the keys of a list are its own, those from other keys are the old ones. -/
theorem linked_foldl_setChildren (children : Schema → List String) {definitions : List Schema}
    (hkeys : (definitions.map Schema.key).Nodup) (g : CompositionGraph) (parent child : String) :
    (definitions.foldl (fun g d => g.setChildren d.key (children d)) g).Linked parent child ↔
      (∃ d ∈ definitions, d.key = parent ∧ child ∈ children d) ∨
        parent ∉ definitions.map Schema.key ∧ g.Linked parent child := by
  induction definitions generalizing g with
  | nil => simp
  | cons e rest ih =>
      obtain ⟨hnew, hrest⟩ := List.nodup_cons.1 hkeys
      rw [List.foldl_cons, ih hrest, linked_setChildren, List.exists_mem_cons_iff, List.map_cons,
        List.mem_cons]
      by_cases hparent : parent = e.key
      · subst hparent
        have hnone : ¬ ∃ d ∈ rest, d.key = e.key ∧ child ∈ children d := by
          rintro ⟨d, hd, hkey, -⟩
          exact hnew (List.mem_map.2 ⟨d, hd, hkey⟩)
        rw [redirected_self_iff]
        simp only [hnone, hnew, not_false_eq_true, true_and, false_or, or_false, not_true_eq_false,
          false_and]
      · rw [redirected_iff_of_ne hparent]
        simp only [hparent, Ne.symm hparent, false_and, false_or]

theorem grounded_foldl_setChildren (children : Schema → List String) (definitions : List Schema)
    {g : CompositionGraph} (h : g.Grounded) :
    (definitions.foldl (fun g d => g.setChildren d.key (children d)) g).Grounded := by
  induction definitions generalizing g with
  | nil => exact h
  | cons e rest ih => exact ih (h.setChildren e.key (children e))

end CompositionGraph

namespace Schema

/-- Sorted keys increase. -/
theorem sortedKeys_increasing (keys : List String) : (sortedKeys keys).Pairwise (· < ·) :=
  List.pairwise_map.2 (Keyed.sorted_ofList _)

end Schema

namespace SaveOrder

open CompositionGraph (onCycle_eq_true_iff)

variable {definitions : List Schema}

/-! ## Keys on a cycle of definitions -/

theorem grounded_graphOf (definitions : List Schema) : (graphOf definitions).Grounded :=
  CompositionGraph.grounded_foldl_setChildren _ definitions CompositionGraph.grounded_empty

/-- The graph of definitions has their composition among themselves for its edges. -/
theorem linked_graphOf (hkeys : (definitions.map Schema.key).Nodup) :
    (graphOf definitions).Linked = ComposedAmong definitions := by
  funext parent child
  refine propext ?_
  rw [graphOf, CompositionGraph.linked_foldl_setChildren _ hkeys]
  simp only [CompositionGraph.Linked, CompositionGraph.empty, List.not_mem_nil, and_false, or_false,
    List.mem_filter, List.contains_iff_mem, ComposedAmong]
  tauto

/-- The keys that are reported are those on a cycle. -/
theorem mem_cyclicKeys_iff (hkeys : (definitions.map Schema.key).Nodup) (key : String) :
    key ∈ cyclicKeys definitions ↔ TransGen (ComposedAmong definitions) key key := by
  rw [cyclicKeys, Schema.mem_sortedKeys_iff, List.mem_filter,
    onCycle_eq_true_iff (grounded_graphOf definitions), linked_graphOf hkeys]
  refine and_iff_right_of_imp fun hcycle => ?_
  -- the last step of a cycle leads to a key of the list
  obtain ⟨last, -, hkey, -⟩ := TransGen.tail'_iff.1 hcycle
  exact hkey

theorem cyclicKeys_increasing (definitions : List Schema) :
    (cyclicKeys definitions).Pairwise (· < ·) :=
  Schema.sortedKeys_increasing _

theorem cyclicKeys_of_perm (hkeys : (definitions.map Schema.key).Nodup) {others : List Schema}
    (h : others.Perm definitions) : cyclicKeys others = cyclicKeys definitions := by
  refine (cyclicKeys_increasing others).eq_of_mem_iff (cyclicKeys_increasing definitions) fun key => ?_
  rw [mem_cyclicKeys_iff ((h.map Schema.key).nodup_iff.2 hkeys), mem_cyclicKeys_iff hkeys,
    composedAmong_of_perm h]

/-- Definitions are refused for a cycle just if their keys are distinct and there is one. -/
theorem arrange_eq_error_iff {names : List String} :
    arrange definitions = .error (.cyclicDefinitions names) ↔
      (definitions.map Schema.key).Nodup ∧ ¬ Acyclic (ComposedAmong definitions) ∧
        names = cyclicKeys definitions := by
  constructor
  · intro h
    have hfails : ¬ ∃ ordered, arrange definitions = .ok ordered := by
      rintro ⟨ordered, hok⟩
      cases hok.symm.trans h
    cases hrepeated : repeatedKey? [] definitions with
    | some key =>
        rw [arrange, hrepeated] at h
        cases h
    | none =>
        have hkeys := (repeatedKey?_nil_eq_none_iff definitions).1 hrepeated
        rw [exists_arrange_eq_ok_iff] at hfails
        refine ⟨hkeys, fun hacyclic => hfails ⟨hkeys, hacyclic⟩, ?_⟩
        simp only [arrange, hrepeated] at h
        split at h
        · cases h
        · cases h
          rfl
  · rintro ⟨hkeys, hcycle, rfl⟩
    have hfails : ¬ ∃ ordered, arrange definitions = .ok ordered := by
      rw [exists_arrange_eq_ok_iff]
      exact fun h => hcycle h.2
    simp only [arrange, (repeatedKey?_nil_eq_none_iff definitions).2 hkeys] at hfails ⊢
    split
    · rename_i hfirst
      rw [if_pos hfirst] at hfails
      exact absurd ⟨_, rfl⟩ hfails
    · rfl

/-! ## Strongly connected components -/

/-- Two keys lead to each other. -/
def Connected (r : String → String → Prop) (a b : String) : Prop :=
  ReflTransGen r a b ∧ ReflTransGen r b a

/-- Lists of keys are the strongly connected components of a relation: each key stands in one of
them, once, and with it all the keys that it is connected to. -/
structure StrongComponents (r : String → String → Prop) (keys : List String)
    (components : List (List String)) : Prop where
  keys_once : components.flatten.Perm keys
  mem_iff : ∀ component ∈ components, ∀ a ∈ component, ∀ b ∈ keys, b ∈ component ↔ Connected r a b

section Components

variable {r : String → String → Prop} {a b c : String}

/-- A list without repetitions has more than one key if it has another one besides a given key. -/
theorem one_lt_length_iff {keys : List String} (hnodup : keys.Nodup) {key : String}
    (hkey : key ∈ keys) : 1 < keys.length ↔ ∃ other ∈ keys, key ≠ other := by
  constructor
  · intro hlong
    by_contra hnone
    have hall : ∀ other ∈ keys, other = key := by
      intro other hother
      by_contra hne
      exact hnone ⟨other, hother, Ne.symm hne⟩
    rw [List.eq_replicate_of_mem hall, List.nodup_replicate] at hnodup
    omega
  · rintro ⟨other, hother, hne⟩
    match keys with
    | [first] => exact absurd ((List.mem_singleton.1 hkey).trans (List.mem_singleton.1 hother).symm) hne
    | _ :: _ :: rest => simp

theorem Connected.symm (h : Connected r a b) : Connected r b a := ⟨h.2, h.1⟩

theorem Connected.trans (h : Connected r a b) (h' : Connected r b c) : Connected r a c :=
  ⟨h.1.trans h'.1, h'.2.trans h.2⟩

/-- A key that is connected to another one lies on a cycle. -/
theorem Connected.transGen_of_ne (h : Connected r a b) (hne : a ≠ b) : TransGen r a a := by
  rcases reflTransGen_iff_eq_or_transGen.1 h.1 with heq | hway
  · exact absurd heq.symm hne
  · exact hway.trans_left h.2

/-- Any keys can be divided into strongly connected components. -/
theorem exists_strongComponents (r : String → String → Prop) (keys : List String) :
    ∃ components, StrongComponents r keys components := by
  classical
  -- the keys connected to the first one make a component, and the others are divided in turn
  induction hlength : keys.length using Nat.strong_induction_on generalizing keys with
  | _ n ih =>
      cases keys with
      | nil => exact ⟨[], .refl _, List.forall_mem_nil _⟩
      | cons key rest =>
          let same := (key :: rest).filter fun b => Connected r key b
          let others := (key :: rest).filter fun b => !decide (Connected r key b)
          have hsame : ∀ {b}, b ∈ same ↔ b ∈ key :: rest ∧ Connected r key b := by simp [same]
          have hothers : ∀ {b}, b ∈ others ↔ b ∈ key :: rest ∧ ¬ Connected r key b := by
            simp [others]
          have hperm : (same ++ others).Perm (key :: rest) := List.filter_append_perm _ _
          have hshorter : others.length < n := by
            have hkey : 0 < same.length :=
              List.length_pos_of_mem (hsame.2 ⟨List.mem_cons_self, .refl, .refl⟩)
            have hsum := hperm.length_eq
            rw [List.length_append] at hsum
            omega
          obtain ⟨components, honce, hmem⟩ := ih others.length hshorter others rfl
          refine ⟨same :: components, (honce.append_left same).trans hperm, ?_⟩
          refine List.forall_mem_cons.2 ⟨fun a ha b hb => ?_, fun component hcomponent a ha b hb => ?_⟩
          · have hka := (hsame.1 ha).2
            rw [hsame]
            exact ⟨fun h => hka.symm.trans h.2, fun h => ⟨hb, hka.trans h⟩⟩
          · have hother : ∀ {b}, b ∈ component → b ∈ others :=
              fun hin => honce.mem_iff.1 (List.mem_flatten.2 ⟨component, hcomponent, hin⟩)
            have hka := (hothers.1 (hother ha)).2
            by_cases hkb : Connected r key b
            · refine iff_of_false (fun hin => (hothers.1 (hother hin)).2 hkb) fun hab => ?_
              exact hka (hkb.trans hab.symm)
            · exact hmem component hcomponent a ha b (hothers.2 ⟨hb, hkb⟩)

end Components

/-- Whether a strongly connected component of a graph holds a cycle: it has more than one key, or
one with an edge to itself. -/
def holdsCycle (g : CompositionGraph) (component : List String) : Bool :=
  1 < component.length || component.any fun key => (g.children key).contains key

/-- The component of a key holds a cycle exactly if the key lies on one. -/
theorem holdsCycle_iff (hkeys : (definitions.map Schema.key).Nodup) {components : List (List String)}
    (h : StrongComponents (ComposedAmong definitions) (definitions.map Schema.key) components)
    {component : List String} (hcomponent : component ∈ components) {key : String}
    (hkey : key ∈ component) :
    holdsCycle (graphOf definitions) component = true ↔
      TransGen (ComposedAmong definitions) key key := by
  have hwithin : ∀ {b}, b ∈ component → b ∈ definitions.map Schema.key :=
    fun hin => h.keys_once.mem_iff.1 (List.mem_flatten.2 ⟨component, hcomponent, hin⟩)
  have hconnected : ∀ {b}, b ∈ component → Connected (ComposedAmong definitions) key b :=
    fun hin => (h.mem_iff component hcomponent key hkey _ (hwithin hin)).1 hin
  have hself : ∀ b, ((graphOf definitions).children b).contains b = true ↔
      ComposedAmong definitions b b := by
    intro b
    rw [List.contains_iff_mem, CompositionGraph.mem_children_iff, ← linked_graphOf hkeys,
      CompositionGraph.Linked]
  have hnodup : component.Nodup :=
    (List.nodup_flatten.1 (h.keys_once.nodup_iff.2 hkeys)).1 component hcomponent
  rw [holdsCycle, Bool.or_eq_true, decide_eq_true_eq, List.any_eq_true, one_lt_length_iff hnodup hkey]
  simp only [hself]
  constructor
  · rintro (⟨b, hb, hne⟩ | ⟨b, hb, hstep⟩)
    · exact (hconnected hb).transGen_of_ne hne
    · exact .trans_right (hconnected hb).1 (.head' hstep (hconnected hb).2)
  · intro hcycle
    obtain ⟨next, hstep, hback⟩ := TransGen.head'_iff.1 hcycle
    have hnext : next ∈ component :=
      (h.mem_iff component hcomponent key hkey next hstep.1).2 ⟨.single hstep, hback⟩
    by_cases heq : key = next
    · subst heq
      exact Or.inr ⟨key, hkey, hstep⟩
    · exact Or.inl ⟨next, hnext, heq⟩

/-- The keys that are reported are those of the components that hold a cycle. -/
theorem cyclicKeys_perm_components (hkeys : (definitions.map Schema.key).Nodup)
    {components : List (List String)}
    (h : StrongComponents (ComposedAmong definitions) (definitions.map Schema.key) components) :
    (cyclicKeys definitions).Perm (components.filter (holdsCycle (graphOf definitions))).flatten := by
  have hnodup : (components.filter (holdsCycle (graphOf definitions))).flatten.Nodup :=
    (List.Sublist.flatten List.filter_sublist).nodup (h.keys_once.nodup_iff.2 hkeys)
  have hreported : (cyclicKeys definitions).Nodup := (cyclicKeys_increasing definitions).nodup
  refine (List.perm_ext_iff_of_nodup hreported hnodup).2 fun key => ?_
  rw [mem_cyclicKeys_iff hkeys, List.mem_flatten]
  constructor
  · intro hcycle
    obtain ⟨last, -, hkey, -⟩ := TransGen.tail'_iff.1 hcycle
    obtain ⟨component, hcomponent, hin⟩ := List.mem_flatten.1 (h.keys_once.mem_iff.2 hkey)
    exact ⟨component, List.mem_filter.2 ⟨hcomponent, (holdsCycle_iff hkeys h hcomponent hin).2 hcycle⟩,
      hin⟩
  · rintro ⟨component, hfilter, hin⟩
    obtain ⟨hcomponent, hholds⟩ := List.mem_filter.1 hfilter
    exact (holdsCycle_iff hkeys h hcomponent hin).1 hholds

/-- Definitions whose composition among themselves has a cycle are refused, in whichever order they
come, with the same keys: exactly those on a cycle, in increasing order and each once. They are
the keys of the strongly connected components that hold a cycle, however these are listed. -/
theorem arrange_cyclic (hkeys : (definitions.map Schema.key).Nodup)
    (hcycle : ¬ Acyclic (ComposedAmong definitions)) :
    ∃ names,
      (∀ others, others.Perm definitions →
        arrange others = .error (.cyclicDefinitions names)) ∧
      names.Pairwise (· < ·) ∧
      (∀ key, key ∈ names ↔ TransGen (ComposedAmong definitions) key key) ∧
      (∃ components,
        StrongComponents (ComposedAmong definitions) (definitions.map Schema.key) components) ∧
      ∀ components,
        StrongComponents (ComposedAmong definitions) (definitions.map Schema.key) components →
          names.Perm (components.filter (holdsCycle (graphOf definitions))).flatten := by
  refine ⟨cyclicKeys definitions, fun others hperm => ?_, cyclicKeys_increasing definitions,
    mem_cyclicKeys_iff hkeys, exists_strongComponents _ _,
    fun _ hcomponents => cyclicKeys_perm_components hkeys hcomponents⟩
  rw [← composedAmong_of_perm hperm] at hcycle
  exact arrange_eq_error_iff.2
    ⟨(hperm.map Schema.key).nodup_iff.2 hkeys, hcycle, (cyclicKeys_of_perm hkeys hperm).symm⟩

/-- Orders and customers refer to each other, parts to themselves within a cycle of three, and notes
to themselves alone. The shop leads to a cycle and the address hangs off one. -/
theorem arrange_cyclic_among_others :
    let schema (key : String) (children : List String) : Schema :=
      ⟨none, key, "", none, children.map fun child => ⟨child, .listOfReference child, []⟩, [], 0⟩
    let definitions : List Schema :=
      [schema "Shop" ["Order"], schema "Order" ["Customer"], schema "Customer" ["Address", "Order"],
        schema "Address" ["Country"], schema "Part" ["Part", "Kit"], schema "Kit" ["Offer"],
        schema "Offer" ["Part"], schema "Note" ["Note"]]
    ¬ Acyclic (ComposedAmong definitions) ∧
      arrange definitions.reverse =
        .error (.cyclicDefinitions ["Customer", "Kit", "Note", "Offer", "Order", "Part"]) ∧
      ¬ TransGen (ComposedAmong definitions) "Shop" "Shop" ∧
      ¬ TransGen (ComposedAmong definitions) "Address" "Address" := by
  intro schema definitions
  have hnote : ComposedAmong definitions "Note" "Note" := by
    unfold ComposedAmong
    decide +kernel
  have hcycle : ¬ Acyclic (ComposedAmong definitions) := fun h => h "Note" (.single hnote)
  have hreported : cyclicKeys definitions = ["Customer", "Kit", "Note", "Offer", "Order", "Part"] := by
    decide +kernel
  obtain ⟨names, hsame, -, hnames, -, -⟩ := @arrange_cyclic definitions (by decide +kernel) hcycle
  have heq : names = cyclicKeys definitions :=
    (arrange_eq_error_iff.1 (hsame definitions (.refl _))).2.2
  rw [heq, hreported] at hsame hnames
  refine ⟨hcycle, hsame _ (List.reverse_perm _), ?_, ?_⟩
  · rw [← hnames]
    decide +kernel
  · rw [← hnames]
    decide +kernel

end SaveOrder

end SchemaCatalog
