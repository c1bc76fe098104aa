import SchemaCatalog.Proofs.Catalog.Loading

/-!
# Loading over what is stored

A store admits definitions when they keep the rules of saving as a whole, once all of them
are laid over it (`Store.Admits`). A load replaces them one by one, and what a definition is
composed of outside the list plays no part in their order. So it is refused when a part of
the definitions, together with what is still stored, closes a cycle that the whole does not
have (`Catalog.load_refused_halfway`). In every order they are accepted exactly if no part
does that which holds, with a definition, those that it is composed of
(`Catalog.reload_accepted_iff`); it cannot happen when no definition leads out of the list
and back into it (`Store.acyclic_overlaid_of_noReturn`).

Over an empty store the parts of definitions without cycles have none, so that loading
accepts exactly the well-formed definitions, and loading them again repeats it
(`Catalog.load_repeats`).
-/

set_option autoImplicit false

namespace SchemaCatalog

open Relation
open SaveOrder (arrange ComposedAmong ChildrenFirst)

/-- A part of some definitions that has, with a definition, those of them that it is composed
of. -/
structure ClosedPart (definitions part : List Schema) : Prop where
  subset : part ⊆ definitions
  closed : ∀ d ∈ part, ∀ child ∈ d.children, child ∈ definitions.map Schema.key →
    child ∈ part.map Schema.key

namespace Store

/-- Definitions that keep the rules of saving once all of them are laid over a store. -/
structure Admits (s : Store) (rule : KeyRule) (definitions : List Schema) : Prop where
  distinct_keys : (definitions.map Schema.key).Nodup
  fresh_version : ∀ d ∈ definitions, s.get? d.key = none → d.version = 0
  key_form : ∀ d ∈ definitions, rule.pattern.isFoundIn d.key = true
  distinct_names : ∀ d ∈ definitions, d.DistinctNames
  children_known : ∀ d ∈ definitions, ∀ child ∈ d.children,
    child ∈ definitions.map Schema.key ∨ ∃ stored, s.get? child = some stored
  acyclic : Acyclic (s.Overlaid definitions)

/-- No definition is composed of a schema outside the list that leads back into it. -/
def NoReturn (s : Store) (definitions : List Schema) : Prop :=
  ∀ d ∈ definitions, ∀ child ∈ d.children, child ∉ definitions.map Schema.key →
    ∀ key ∈ definitions.map Schema.key, ¬ TransGen s.Composes child key

/-- Definitions that a store admits have no cycle among themselves. -/
theorem Admits.acyclic_composedAmong {s : Store} {rule : KeyRule} {definitions : List Schema}
    (h : s.Admits rule definitions) : Acyclic (ComposedAmong definitions) :=
  h.acyclic.mono fun _ _ hstep => Or.inl hstep.2

/-! ## Parts of the definitions -/

/-- The front of definitions with the children first is a closed part of them. -/
theorem closedPart_front {definitions ordered front back : List Schema}
    (hperm : ordered.Perm definitions) (hfirst : ChildrenFirst ordered)
    (heq : ordered = front ++ back) : ClosedPart definitions front where
  subset := by
    intro d hd
    refine hperm.mem_iff.1 ?_
    rw [heq]
    exact List.mem_append_left back hd
  closed := by
    intro d hd child hchild hkey
    obtain ⟨before, after, rfl⟩ := List.append_of_mem hd
    have hkeyOrdered : child ∈ ordered.map Schema.key := (hperm.map Schema.key).mem_iff.2 hkey
    have hin : child ∈ before.map Schema.key :=
      hfirst before d (after ++ back) (by rw [heq]; simp) child hchild hkeyOrdered
    rw [List.map_append]
    exact List.mem_append_left _ hin

/-- Admitted definitions whose closed parts close no cycle are taken in every order that has
the children first. -/
theorem Admits.takes {s : Store} {rule : KeyRule} {definitions ordered : List Schema}
    (h : s.Admits rule definitions)
    (hparts : ∀ part, ClosedPart definitions part → Acyclic (s.Overlaid part))
    (hperm : ordered.Perm definitions) (hfirst : ChildrenFirst ordered) :
    s.Takes rule ordered where
  key_form := fun d hd => h.key_form d (hperm.mem_iff.1 hd)
  distinct_names := fun d hd => h.distinct_names d (hperm.mem_iff.1 hd)
  fresh_version := fun d hd => h.fresh_version d (hperm.mem_iff.1 hd)
  children_known := by
    intro front d back heq child hchild
    have hd : d ∈ ordered := by
      rw [heq]
      simp
    refine (h.children_known d (hperm.mem_iff.1 hd) child hchild).imp_left fun hkey => ?_
    exact hfirst front d back heq child hchild ((hperm.map Schema.key).mem_iff.2 hkey)
  acyclic := fun front back heq => hparts front (closedPart_front hperm hfirst heq)

/-- A closed part of admitted definitions can come first in an order with the children
first. -/
theorem Admits.exists_order {s : Store} {rule : KeyRule} {definitions part : List Schema}
    (h : s.Admits rule definitions) (hpart : ClosedPart definitions part) :
    ∃ first second, (first ++ second).Perm definitions ∧ ChildrenFirst (first ++ second) ∧
      ∀ d, d ∈ first ↔ d ∈ part := by
  -- the part and the rest of the definitions are arranged each on its own
  let inPart : Schema → Bool := fun d => decide (d.key ∈ part.map Schema.key)
  have harranged : ∀ p : Schema → Bool,
      ∃ ordered, ordered.Perm (definitions.filter p) ∧ ChildrenFirst ordered := by
    intro p
    have hsub : definitions.filter p ⊆ definitions := List.filter_subset_self definitions
    have hkeys : ((definitions.filter p).map Schema.key).Nodup :=
      h.distinct_keys.sublist (List.filter_sublist.map Schema.key)
    have hacyclic : Acyclic (ComposedAmong (definitions.filter p)) :=
      h.acyclic_composedAmong.mono fun _ _ ⟨hchild, d, hd, hcomposed⟩ =>
        ⟨List.map_subset Schema.key hsub hchild, d, hsub hd, hcomposed⟩
    obtain ⟨ordered, hordered⟩ := (SaveOrder.exists_arrange_eq_ok_iff _).2 ⟨hkeys, hacyclic⟩
    exact ⟨ordered, SaveOrder.arranged hordered⟩
  obtain ⟨first, hfirst, hfirstOrder⟩ := harranged inPart
  obtain ⟨second, hsecond, hsecondOrder⟩ := harranged fun d => !inPart d
  have hmem : ∀ d, d ∈ first ↔ d ∈ part := by
    intro d
    rw [hfirst.mem_iff, List.mem_filter, decide_eq_true_eq]
    constructor
    · rintro ⟨hd, hkey⟩
      obtain ⟨e, he, hekey⟩ := List.mem_map.1 hkey
      have hsame : e = d :=
        List.inj_on_of_nodup_map h.distinct_keys (hpart.subset he) hd hekey
      exact hsame ▸ he
    · intro hd
      exact ⟨hpart.subset hd, List.mem_map.2 ⟨d, hd, rfl⟩⟩
  refine ⟨first, second, ?_, ?_, hmem⟩
  · exact (hfirst.append hsecond).trans (List.filter_append_perm inPart definitions)
  · refine hfirstOrder.append hsecondOrder fun d hd child hchild hkey => ?_
    obtain ⟨e, he, rfl⟩ := List.mem_map.1 hkey
    have hdefined : e ∈ definitions := (List.mem_filter.1 (hsecond.mem_iff.1 he)).1
    obtain ⟨f, hf, hfkey⟩ := List.mem_map.1
      (hpart.closed d ((hmem d).1 hd) e.key hchild (List.mem_map.2 ⟨e, hdefined, rfl⟩))
    exact List.mem_map.2 ⟨f, (hmem f).2 hf, hfkey⟩

/-- A way over a store with a part laid over it is one of stored steps, or it passes through
the part. -/
theorem transGen_overlaid {s : Store} {part : List Schema} {a b : String}
    (h : TransGen (s.Overlaid part) a b) :
    TransGen s.Composes a b ∨ ∃ key ∈ part.map Schema.key,
      ReflTransGen (s.Overlaid part) a key ∧ TransGen (s.Overlaid part) key b := by
  induction h using TransGen.head_induction_on with
  | @single a hstep =>
      rcases hstep with ⟨d, hd, rfl, hchild⟩ | ⟨hnot, hold⟩
      · exact Or.inr ⟨d.key, List.mem_map.2 ⟨d, hd, rfl⟩, .refl,
          .single (Or.inl ⟨d, hd, rfl, hchild⟩)⟩
      · exact Or.inl (.single hold)
  | @head a c hstep hrest ih =>
      by_cases ha : a ∈ part.map Schema.key
      · exact Or.inr ⟨a, ha, .refl, .head hstep hrest⟩
      · rcases ih with hold | ⟨key, hkey, hto, hfrom⟩
        · rcases hstep with ⟨d, hd, rfl, -⟩ | ⟨-, hstored⟩
          · exact absurd (List.mem_map.2 ⟨d, hd, rfl⟩) ha
          · exact Or.inl (.head hstored hold)
        · exact Or.inr ⟨key, hkey, .head hstep hto, hfrom⟩

/-- Where no definition leads out of the list and back, no closed part of admitted definitions
closes a cycle: ways from the part stay in it or leave the list for good. -/
theorem acyclic_overlaid_of_noReturn {s : Store} {definitions part : List Schema}
    (hstore : Acyclic s.Composes) (hall : Acyclic (s.Overlaid definitions))
    (hreturn : s.NoReturn definitions) (hpart : ClosedPart definitions part) :
    Acyclic (s.Overlaid part) := by
  -- the keys that a way from the part can come to
  let Safe (key : String) : Prop := key ∈ part.map Schema.key ∨
    key ∉ definitions.map Schema.key ∧
      ∀ back ∈ definitions.map Schema.key, ¬ TransGen s.Composes key back
  have hstep : ∀ a b, Safe a → s.Overlaid part a b → s.Overlaid definitions a b ∧ Safe b := by
    rintro a b hsafe (⟨d, hd, rfl, hchild⟩ | ⟨hnot, hstored⟩)
    · have hmem : d ∈ definitions := hpart.subset hd
      refine ⟨Or.inl ⟨d, hmem, rfl, hchild⟩, ?_⟩
      by_cases hb : b ∈ definitions.map Schema.key
      · exact Or.inl (hpart.closed d hd b hchild hb)
      · exact Or.inr ⟨hb, hreturn d hmem b hchild hb⟩
    · obtain ⟨houtside, hleads⟩ := hsafe.resolve_left hnot
      refine ⟨Or.inr ⟨houtside, hstored⟩, Or.inr ⟨fun hb => hleads b hb (.single hstored), ?_⟩⟩
      exact fun back hback hway => hleads back hback (.head hstored hway)
  have hway : ∀ a b, TransGen (s.Overlaid part) a b → Safe a →
      TransGen (s.Overlaid definitions) a b := by
    intro a b h
    induction h using TransGen.head_induction_on with
    | @single a hlast => exact fun hsafe => .single (hstep a b hsafe hlast).1
    | @head a c hfirst _ ih =>
        intro hsafe
        obtain ⟨hlaid, hnext⟩ := hstep a c hsafe hfirst
        exact .head hlaid (ih hnext)
  intro key hcycle
  rcases transGen_overlaid hcycle with hold | ⟨inside, hinside, hto, hfrom⟩
  · exact hstore key hold
  · exact hall inside (hway inside inside (hfrom.trans_left hto) (Or.inl hinside))

end Store

namespace Catalog

/-- Admitted definitions are accepted in every order if no closed part of them closes a
cycle. -/
theorem load_succeeds_of_parts {c : Catalog} (hindexed : c.store.Indexed)
    (hanswers : c.outages = .none) (hacyclic : Acyclic c.store.Composes)
    {definitions order : List Schema} (hadmits : c.store.Admits c.keyRule definitions)
    (hparts : ∀ part, ClosedPart definitions part → Acyclic (c.store.Overlaid part))
    (horder : order.Perm definitions) : ∃ saved, (c.load order).1 = .ok saved := by
  have hkeys : (order.map Schema.key).Nodup :=
    (horder.map Schema.key).nodup_iff.2 hadmits.distinct_keys
  have hcycles : Acyclic (ComposedAmong order) := by
    rw [SaveOrder.composedAmong_of_perm horder]
    exact hadmits.acyclic_composedAmong
  obtain ⟨ordered, hordered⟩ := (SaveOrder.exists_arrange_eq_ok_iff order).2 ⟨hkeys, hcycles⟩
  obtain ⟨hperm, hfirst⟩ := SaveOrder.arranged hordered
  exact (load_succeeds_iff hindexed hanswers hacyclic order).2
    ⟨ordered, hordered, hadmits.takes hparts (hperm.trans horder) hfirst⟩

/-- A closed part that closes a cycle makes one order of the definitions fail. -/
theorem acyclic_part_of_load_succeeds {c : Catalog} (hindexed : c.store.Indexed)
    (hanswers : c.outages = .none) (hacyclic : Acyclic c.store.Composes)
    {definitions part : List Schema} (hadmits : c.store.Admits c.keyRule definitions)
    (hload : ∀ order : List Schema, order.Perm definitions →
      ∃ saved, (c.load order).1 = .ok saved)
    (hpart : ClosedPart definitions part) : Acyclic (c.store.Overlaid part) := by
  obtain ⟨first, second, hperm, hfirst, hmem⟩ := hadmits.exists_order hpart
  have hkeys : ((first ++ second).map Schema.key).Nodup :=
    (hperm.map Schema.key).nodup_iff.2 hadmits.distinct_keys
  -- the definitions turned round are arranged so that the part comes first
  have harrange := SaveOrder.arrange_reverse hfirst hkeys
  obtain ⟨ordered, hordered, htakes⟩ := (load_succeeds_iff hindexed hanswers hacyclic _).1
    (hload (first ++ second).reverse ((List.reverse_perm _).trans hperm))
  rw [harrange] at hordered
  cases hordered
  rw [← c.store.overlaid_congr hmem]
  exact htakes.acyclic first second rfl

/-- Definitions that are accepted in one order keep the rules of saving as a whole. -/
theorem admits_of_load {c : Catalog} (hindexed : c.store.Indexed) (hanswers : c.outages = .none)
    (hacyclic : Acyclic c.store.Composes) {definitions order : List Schema}
    (horder : order.Perm definitions) (hload : ∃ saved, (c.load order).1 = .ok saved) :
    c.store.Admits c.keyRule definitions := by
  obtain ⟨saved, hok⟩ := hload
  obtain ⟨ordered, hordered, hkeys, htakes, -⟩ := load_snd_of_ok hindexed hanswers hacyclic hok
  have hperm : ordered.Perm definitions := hordered.trans horder
  refine ⟨(hperm.map Schema.key).nodup_iff.1 hkeys,
    fun d hd => htakes.fresh_version d (hperm.mem_iff.2 hd),
    fun d hd => htakes.key_form d (hperm.mem_iff.2 hd),
    fun d hd => htakes.distinct_names d (hperm.mem_iff.2 hd), ?_, ?_⟩
  · intro d hd child hchild
    obtain ⟨front, back, heq⟩ := List.append_of_mem (hperm.mem_iff.2 hd)
    refine (htakes.children_known front d back heq child hchild).imp_left fun hin => ?_
    rw [← (hperm.map Schema.key).mem_iff, heq, List.map_append]
    exact List.mem_append_left _ hin
  · rw [← c.store.overlaid_congr fun d => hperm.mem_iff]
    exact htakes.acyclic ordered [] (List.append_nil ordered).symm

/-- The two schemas are turned round by way of a third one outside the list: `B`, so far at
the bottom, comes to stand on top. That keeps the rules as a whole and is accepted in one
order, but in the other `B` is saved while `A` is still composed of it. -/
theorem load_refused_halfway :
    let calls : List Call :=
      [.save ⟨none, "B", "", none, [], [], 0⟩,
        .save ⟨none, "A", "", none, [⟨"b", .reference "B", []⟩], [], 0⟩,
        .save ⟨none, "X", "", none, [⟨"a", .reference "A", []⟩], [], 0⟩]
    let definitions : List Schema :=
      [⟨none, "A", "", none, [], [], 0⟩, ⟨none, "B", "", none, [⟨"x", .reference "X", []⟩], [], 0⟩]
    let c := (empty .default .none).run calls
    (∀ call ∈ calls, call.checked = true) ∧ c.store.Admits .default definitions ∧
      (¬ ∃ saved, (c.load definitions).1 = .ok saved) ∧
      ∃ saved, (c.load definitions.reverse).1 = .ok saved := by
  intro calls definitions c
  have hcalls : ∀ call ∈ calls, call.checked = true := by
    simp [calls, Call.checked]
  obtain ⟨hrule, hanswers, hindexed, hlawful⟩ := lawful_indexed_run .default hcalls
  have haccepted : ∃ saved, (c.load definitions.reverse).1 = .ok saved := by
    decide +kernel
  have hadmits := admits_of_load hindexed hanswers hlawful.acyclic
    (List.reverse_perm definitions) haccepted
  rw [hrule] at hadmits
  refine ⟨hcalls, hadmits, ?_, haccepted⟩
  decide +kernel

/-- Definitions that a store admits are accepted in every order exactly if no closed part of
them closes a cycle with what is still stored, and so if no definition leads out of the list
and back into it. A load that succeeds stores each definition under its key with the next
version and changes nothing else. -/
theorem reload_accepted_iff (rule : KeyRule) {calls : List Call}
    (hcalls : ∀ call ∈ calls, call.checked = true) {definitions : List Schema}
    (hadmits : ((empty rule .none).run calls).store.Admits rule definitions) :
    let c := (empty rule .none).run calls
    ((∀ order : List Schema, order.Perm definitions → ∃ saved, (c.load order).1 = .ok saved) ↔
      ∀ part, ClosedPart definitions part → Acyclic (c.store.Overlaid part)) ∧
    (c.store.NoReturn definitions →
      ∀ order : List Schema, order.Perm definitions → ∃ saved, (c.load order).1 = .ok saved) ∧
    ∀ (order saved : List Schema), order.Perm definitions → (c.load order).1 = .ok saved →
      (∀ d ∈ definitions, ∃ id, (c.after (.load order)).store.get? d.key =
        some { d with id := some id, version := c.store.version d.key + 1 }) ∧
      ∀ key, key ∉ definitions.map Schema.key →
        (c.after (.load order)).store.get? key = c.store.get? key := by
  intro c
  obtain ⟨hrule, hanswers, hindexed, hlawful⟩ := lawful_indexed_run rule hcalls
  have hadmitsRule : c.store.Admits c.keyRule definitions := by
    rw [hrule]
    exact hadmits
  refine ⟨⟨?_, ?_⟩, ?_, ?_⟩
  · intro hload part hpart
    exact acyclic_part_of_load_succeeds hindexed hanswers hlawful.acyclic hadmitsRule hload hpart
  · intro hparts order horder
    exact load_succeeds_of_parts hindexed hanswers hlawful.acyclic hadmitsRule hparts horder
  · intro hreturn order horder
    have hparts : ∀ part, ClosedPart definitions part → Acyclic (c.store.Overlaid part) :=
      fun part hpart => Store.acyclic_overlaid_of_noReturn hlawful.acyclic hadmits.acyclic
        hreturn hpart
    exact load_succeeds_of_parts hindexed hanswers hlawful.acyclic hadmitsRule hparts horder
  · intro order saved horder hok
    obtain ⟨ordered, hperm, hkeys, htakes, hafter⟩ :=
      load_snd_of_ok hindexed hanswers hlawful.acyclic hok
    have hall : ordered.Perm definitions := hperm.trans horder
    have hstore : (c.after (.load order)).store = c.store.loaded ordered := by
      rw [after, hafter]
    rw [hstore]
    refine ⟨fun d hd => ?_, fun key hkey => ?_⟩
    · obtain ⟨id, hget, -⟩ := Store.get?_loaded_of_mem c.store hkeys htakes.fresh_version
        (hall.mem_iff.2 hd)
      exact ⟨id, hget⟩
    · refine Store.get?_loaded_of_not_mem c.store fun hin => hkey ?_
      exact (hall.map Schema.key).mem_iff.1 hin

/-- Two schemas that are turned round within the list can come in any order. -/
theorem reload_accepted_turned_round :
    let calls : List Call :=
      [.save ⟨none, "B", "", none, [], [], 0⟩,
        .save ⟨none, "A", "", none, [⟨"b", .reference "B", []⟩], [], 0⟩,
        .save ⟨none, "X", "", none, [⟨"a", .reference "A", []⟩], [], 0⟩]
    let definitions : List Schema :=
      [⟨none, "B", "", none, [⟨"a", .listOfReference "A", []⟩], [], 0⟩, ⟨none, "A", "", none, [], [], 0⟩]
    let c := (empty .default .none).run calls
    (∀ call ∈ calls, call.checked = true) ∧ c.store.Admits .default definitions ∧
      c.store.NoReturn definitions ∧
      ∀ order : List Schema, order.Perm definitions → ∃ saved, (c.load order).1 = .ok saved := by
  intro calls definitions c
  have hcalls : ∀ call ∈ calls, call.checked = true := by
    simp [calls, Call.checked]
  obtain ⟨hrule, hanswers, hindexed, hlawful⟩ := lawful_indexed_run .default hcalls
  have hadmits := admits_of_load hindexed hanswers hlawful.acyclic (List.Perm.refl definitions)
    (by decide +kernel)
  rw [hrule] at hadmits
  have hinside : ∀ d ∈ definitions, ∀ child ∈ d.children,
      child ∈ definitions.map Schema.key := by
    decide +kernel
  have hreturn : c.store.NoReturn definitions :=
    fun d hd child hchild houtside => absurd (hinside d hd child hchild) houtside
  exact ⟨hcalls, hadmits, hreturn, (reload_accepted_iff .default hcalls hadmits).2.1 hreturn⟩

end Catalog

/-! ## Loading into an empty catalog -/

/-- Definitions that can be loaded into an empty catalog. -/
structure Definitions.WellFormed (rule : KeyRule) (definitions : List Schema) : Prop where
  distinct_keys : (definitions.map Schema.key).Nodup
  key_form : ∀ d ∈ definitions, rule.pattern.isFoundIn d.key = true
  distinct_names : ∀ d ∈ definitions, d.DistinctNames
  version_zero : ∀ d ∈ definitions, d.version = 0
  children_inside : ∀ d ∈ definitions, ∀ child ∈ d.children, child ∈ definitions.map Schema.key
  acyclic : Acyclic (ComposedAmong definitions)

namespace Store

theorem overlaid_empty_iff (part : List Schema) (parent child : String) :
    empty.Overlaid part parent child ↔ ∃ d ∈ part, d.key = parent ∧ child ∈ d.children := by
  simp [Overlaid, not_composes_empty]

/-- The empty store admits exactly the well-formed definitions. -/
theorem admits_empty_iff (rule : KeyRule) (definitions : List Schema) :
    empty.Admits rule definitions ↔ Definitions.WellFormed rule definitions := by
  constructor
  · intro h
    refine ⟨h.distinct_keys, h.key_form, h.distinct_names,
      fun d hd => h.fresh_version d hd (get?_empty d.key), ?_, h.acyclic_composedAmong⟩
    intro d hd child hchild
    rcases h.children_known d hd child hchild with hin | ⟨stored, hstored⟩
    · exact hin
    · rw [get?_empty] at hstored
      cases hstored
  · intro h
    refine ⟨h.distinct_keys, fun d hd _ => h.version_zero d hd, h.key_form, h.distinct_names,
      fun d hd child hchild => Or.inl (h.children_inside d hd child hchild), ?_⟩
    refine h.acyclic.mono fun parent child hlaid => ?_
    obtain ⟨d, hd, hkey, hchild⟩ := (overlaid_empty_iff definitions parent child).1 hlaid
    exact ⟨h.children_inside d hd child hchild, d, hd, hkey, hchild⟩

/-- A store with nothing but some definitions, under identifiers and at one version. -/
def Holds (s : Store) (definitions : List Schema) (ids : String → Nat) (version : Nat) : Prop :=
  ∀ key, s.get? key = (definitions.find? fun d => d.key == key).map fun d =>
    { d with id := some (ids key), version := version }

theorem Holds.get?_of_mem {s : Store} {definitions : List Schema} {ids : String → Nat} {n : Nat}
    (h : s.Holds definitions ids n) (hkeys : (definitions.map Schema.key).Nodup) {d : Schema}
    (hd : d ∈ definitions) :
    s.get? d.key = some { d with id := some (ids d.key), version := n } := by
  rw [h d.key, SaveOrder.find?_key_eq_some hkeys hd, Option.map_some]

/-- What such a store holds is composed as the definitions are. -/
theorem Holds.composes_iff {s : Store} {definitions : List Schema} {ids : String → Nat} {n : Nat}
    (h : s.Holds definitions ids n) (hkeys : (definitions.map Schema.key).Nodup)
    (parent child : String) :
    s.Composes parent child ↔ ∃ d ∈ definitions, d.key = parent ∧ child ∈ d.children := by
  constructor
  · rintro ⟨schema, hget, hchild⟩
    rw [h parent] at hget
    obtain ⟨d, hfound, rfl⟩ := Option.map_eq_some_iff.1 hget
    exact ⟨d, List.mem_of_find?_eq_some hfound, by simpa using List.find?_some hfound, hchild⟩
  · rintro ⟨d, hd, rfl, hchild⟩
    exact ⟨_, h.get?_of_mem hkeys hd, hchild⟩

/-- Only the identifiers of the definitions matter. -/
theorem Holds.congr {s : Store} {definitions : List Schema} {ids ids' : String → Nat} {n : Nat}
    (h : s.Holds definitions ids n) (hids : ∀ d ∈ definitions, ids d.key = ids' d.key) :
    s.Holds definitions ids' n := by
  intro key
  rw [h key]
  cases hfound : definitions.find? fun d => d.key == key with
  | none => rfl
  | some d =>
      have hkey : d.key = key := by simpa using List.find?_some hfound
      have hsame := hids d (List.mem_of_find?_eq_some hfound)
      rw [hkey] at hsame
      rw [Option.map_some, Option.map_some, hsame]

/-- A store with nothing but definitions at one version, or with nothing at all, has them at
the next version once they are loaded; identifiers that were stored stay. -/
theorem exists_holds_loaded {s : Store} {definitions ordered : List Schema} {n : Nat}
    (hperm : ordered.Perm definitions) (hkeys : (ordered.map Schema.key).Nodup)
    (hfresh : ∀ d ∈ ordered, s.get? d.key = none → d.version = 0)
    (houtside : ∀ key, key ∉ definitions.map Schema.key → s.get? key = none)
    (hversion : ∀ d ∈ definitions, s.version d.key = n) :
    ∃ ids, (s.loaded ordered).Holds definitions ids (n + 1) ∧
      ∀ d ∈ definitions, ∀ stored, s.get? d.key = some stored →
        ∀ given, stored.id = some given → ids d.key = given := by
  have hdefined : (definitions.map Schema.key).Nodup := (hperm.map Schema.key).nodup_iff.1 hkeys
  have hstored : ∀ d ∈ definitions, ∃ id,
      (s.loaded ordered).get? d.key = some { d with id := some id, version := n + 1 } ∧
        ∀ stored, s.get? d.key = some stored → ∀ given, stored.id = some given → id = given := by
    intro d hd
    have hloaded := get?_loaded_of_mem s hkeys hfresh (hperm.mem_iff.2 hd)
    rw [hversion d hd] at hloaded
    exact hloaded
  -- the identifiers are read off the store
  let ids (key : String) : Nat := ((s.loaded ordered).get? key >>= Schema.id).getD 0
  have hids : ∀ (d : Schema) (id : Nat), (s.loaded ordered).get? d.key =
      some { d with id := some id, version := n + 1 } → ids d.key = id := by
    intro d id hget
    simp only [ids, hget]
    rfl
  refine ⟨ids, fun key => ?_, fun d hd stored hget given hgiven => ?_⟩
  · cases hfound : definitions.find? fun d => d.key == key with
    | none =>
        have hnot : key ∉ definitions.map Schema.key := by
          intro hin
          obtain ⟨d, hd, rfl⟩ := List.mem_map.1 hin
          rw [SaveOrder.find?_key_eq_some hdefined hd] at hfound
          cases hfound
        have hnotOrdered : key ∉ ordered.map Schema.key :=
          fun hin => hnot ((hperm.map Schema.key).mem_iff.1 hin)
        rw [get?_loaded_of_not_mem s hnotOrdered, houtside key hnot]
        rfl
    | some d =>
        have hkey : d.key = key := by simpa using List.find?_some hfound
        obtain ⟨id, hget, -⟩ := hstored d (List.mem_of_find?_eq_some hfound)
        subst hkey
        rw [Option.map_some, hids d id hget, hget]
  · obtain ⟨id, hloaded, hkeeps⟩ := hstored d hd
    rw [hids d id hloaded]
    exact hkeeps stored hget given hgiven

/-- Such a store has no cycle, also with a part of the definitions laid over it again. -/
theorem Holds.acyclic_overlaid {s : Store} {rule : KeyRule} {definitions part : List Schema}
    {ids : String → Nat} {n : Nat} (h : s.Holds definitions ids n)
    (hwell : Definitions.WellFormed rule definitions) (hpart : part ⊆ definitions) :
    Acyclic (s.Overlaid part) := by
  refine hwell.acyclic.mono fun parent child hlaid => ?_
  have hcomposed : ∃ d ∈ definitions, d.key = parent ∧ child ∈ d.children := by
    rcases hlaid with ⟨d, hd, hkey, hchild⟩ | ⟨-, hstored⟩
    · exact ⟨d, hpart hd, hkey, hchild⟩
    · exact (h.composes_iff hwell.distinct_keys parent child).1 hstored
  obtain ⟨d, hd, hkey, hchild⟩ := hcomposed
  exact ⟨hwell.children_inside d hd child hchild, d, hd, hkey, hchild⟩

theorem Holds.admits {s : Store} {rule : KeyRule} {definitions : List Schema}
    {ids : String → Nat} {n : Nat} (h : s.Holds definitions ids n)
    (hwell : Definitions.WellFormed rule definitions) : s.Admits rule definitions where
  distinct_keys := hwell.distinct_keys
  fresh_version := fun d hd _ => hwell.version_zero d hd
  key_form := hwell.key_form
  distinct_names := hwell.distinct_names
  children_known := fun d hd child hchild => Or.inl (hwell.children_inside d hd child hchild)
  acyclic := h.acyclic_overlaid hwell (List.Subset.refl definitions)

end Store

namespace Catalog

/-- Definitions loaded again are accepted, get the next version and keep their identifiers. -/
theorem holds_load {c : Catalog} (hindexed : c.store.Indexed) (hanswers : c.outages = .none)
    {definitions : List Schema} {ids : String → Nat} {n : Nat}
    (hwell : Definitions.WellFormed c.keyRule definitions) (h : c.store.Holds definitions ids n) :
    (∃ saved, (c.load definitions).1 = .ok saved) ∧
      (c.load definitions).2.store.Holds definitions ids (n + 1) := by
  have hparts : ∀ part, ClosedPart definitions part → Acyclic (c.store.Overlaid part) :=
    fun part hpart => h.acyclic_overlaid hwell hpart.subset
  have hacyclic : Acyclic c.store.Composes := by
    rw [← Store.overlaid_nil]
    exact h.acyclic_overlaid hwell (List.nil_subset definitions)
  obtain ⟨saved, hok⟩ := load_succeeds_of_parts hindexed hanswers hacyclic (h.admits hwell) hparts
    (List.Perm.refl definitions)
  obtain ⟨ordered, hperm, hkeys, htakes, hafter⟩ := load_snd_of_ok hindexed hanswers hacyclic hok
  have houtside : ∀ key, key ∉ definitions.map Schema.key → c.store.get? key = none := by
    intro key hnot
    have hnone : (definitions.find? fun d => d.key == key) = none := by
      rw [List.find?_eq_none]
      intro d hd hkey
      exact hnot (List.mem_map.2 ⟨d, hd, by simpa using hkey⟩)
    rw [h key, hnone]
    rfl
  have hversion : ∀ d ∈ definitions, c.store.version d.key = n := by
    intro d hd
    rw [Store.version, h.get?_of_mem hwell.distinct_keys hd]
    rfl
  obtain ⟨ids', hholds, hkeeps⟩ :=
    Store.exists_holds_loaded hperm hkeys htakes.fresh_version houtside hversion
  refine ⟨⟨saved, hok⟩, ?_⟩
  rw [hafter]
  refine hholds.congr fun d hd => ?_
  exact hkeeps d hd _ (h.get?_of_mem hwell.distinct_keys hd) (ids d.key) rfl

/-- A load into an empty catalog stores the definitions at their first version. -/
theorem exists_holds_load_empty (rule : KeyRule) {definitions : List Schema}
    (hload : ∃ saved, ((empty rule .none).load definitions).1 = .ok saved) :
    ∃ ids, ((empty rule .none).load definitions).2.store.Holds definitions ids 1 := by
  obtain ⟨saved, hok⟩ := hload
  obtain ⟨ordered, hperm, hkeys, htakes, hafter⟩ :=
    load_snd_of_ok Store.indexed_empty rfl (Store.lawful_empty rule).acyclic hok
  obtain ⟨ids, hholds, -⟩ := Store.exists_holds_loaded hperm hkeys htakes.fresh_version
    (fun key _ => Store.get?_empty key) (fun d _ => rfl)
  rw [hafter]
  exact ⟨ids, hholds⟩

theorem load_empty_succeeds_iff (rule : KeyRule) (definitions : List Schema) :
    (∃ saved, ((empty rule .none).load definitions).1 = .ok saved) ↔
      Definitions.WellFormed rule definitions := by
  have hacyclic : Acyclic (empty rule .none).store.Composes := (Store.lawful_empty rule).acyclic
  rw [← Store.admits_empty_iff]
  constructor
  · exact admits_of_load Store.indexed_empty rfl hacyclic (List.Perm.refl definitions)
  · intro hadmits
    refine load_succeeds_of_parts Store.indexed_empty rfl hacyclic hadmits
      (fun part hpart => hadmits.acyclic.mono fun parent child hlaid => ?_)
      (List.Perm.refl definitions)
    -- nothing is stored, so that a part closes no cycle that the whole does not close
    obtain ⟨d, hd, hcomposed⟩ := (Store.overlaid_empty_iff part parent child).1 hlaid
    exact Or.inl ⟨d, hpart.subset hd, hcomposed⟩

theorem run_replicate_succ (c : Catalog) (call : Call) (count : Nat) :
    c.run (List.replicate (count + 1) call) = (c.run (List.replicate count call)).after call := by
  rw [run, run, List.replicate_succ', List.foldl_append]
  rfl

/-- The step from one load of well-formed definitions to the next. -/
theorem holds_run_replicate_succ (rule : KeyRule) {definitions : List Schema}
    (hwell : Definitions.WellFormed rule definitions) {ids : String → Nat} {count : Nat} :
    let c := (empty rule .none).run (List.replicate count (.load definitions))
    c.store.Holds definitions ids count →
      (∃ saved, (c.load definitions).1 = .ok saved) ∧
        (c.after (.load definitions)).store.Holds definitions ids (count + 1) := by
  intro c hholds
  obtain ⟨hrule, hanswers, hindexed⟩ :=
    indexed_run rule .none (List.replicate count (.load definitions))
  refine holds_load hindexed hanswers ?_ hholds
  rw [hrule]
  exact hwell

/-- Loading into an empty catalog accepts exactly the well-formed definitions. Once they are
accepted they are so every time; after each load the catalog holds just these definitions,
at the version that counts the loads and with the identifiers of the first load. -/
theorem load_repeats (rule : KeyRule) (definitions : List Schema) :
    let loads (count : Nat) := (empty rule .none).run (List.replicate count (.load definitions))
    ((∃ saved, ((empty rule .none).load definitions).1 = .ok saved) ↔
      Definitions.WellFormed rule definitions) ∧
    ((∃ saved, ((empty rule .none).load definitions).1 = .ok saved) →
      ∃ ids : String → Nat, ∀ count,
        (∃ saved, ((loads count).load definitions).1 = .ok saved) ∧
          (loads (count + 1)).store.Holds definitions ids (count + 1)) := by
  intro loads
  refine ⟨load_empty_succeeds_iff rule definitions, fun hload => ?_⟩
  have hwell := (load_empty_succeeds_iff rule definitions).1 hload
  obtain ⟨ids, hfirst⟩ := exists_holds_load_empty rule hload
  have hholds : ∀ count, (loads (count + 1)).store.Holds definitions ids (count + 1) := by
    intro count
    induction count with
    | zero => exact hfirst
    | succ count ih =>
        have hlast : loads (count + 1 + 1) = (loads (count + 1)).after (.load definitions) :=
          run_replicate_succ _ _ _
        rw [hlast]
        exact (holds_run_replicate_succ rule hwell ih).2
  refine ⟨ids, fun count => ⟨?_, hholds count⟩⟩
  cases count with
  | zero => exact hload
  | succ count => exact (holds_run_replicate_succ rule hwell (hholds count)).1

end Catalog

end SchemaCatalog
