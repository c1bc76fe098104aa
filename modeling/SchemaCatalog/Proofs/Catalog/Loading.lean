import SchemaCatalog.Proofs.Catalog.Invariants
import SchemaCatalog.Proofs.Composition.Arrangement

/-!
# Loading definitions

A load saves definitions one after the other, each over what is stored under its key. While
it is under way, composition is that of the store with some of the definitions laid over it
(`Store.Overlaid`). A store takes definitions in an order when they keep the rules of saving
and no initial part of them closes a cycle (`Store.Takes`); then and only then all of them
are saved (`Catalog.saveAll_succeeds_iff`). Afterwards each of them is found under its key
with the next version, and under all other keys is what was there before
(`Store.get?_loaded_of_mem`, `Store.get?_loaded_of_not_mem`).
-/

set_option autoImplicit false

namespace SchemaCatalog

open Relation
open SaveOrder (arrange)

/-! ## Relations without cycles -/

theorem Acyclic.mono {r r' : String → String → Prop} (h : Acyclic r')
    (hsub : ∀ a b, r a b → r' a b) : Acyclic r := by
  intro key hcycle
  exact h key (TransGen.mono hsub key key hcycle)

namespace Store

/-! ## Definitions laid over a store -/

/-- Composition after some definitions took the place of what is stored under their keys. -/
def Overlaid (s : Store) (definitions : List Schema) (parent child : String) : Prop :=
  (∃ d ∈ definitions, d.key = parent ∧ child ∈ d.children) ∨
    parent ∉ definitions.map Schema.key ∧ s.Composes parent child

/-- A definition with the identifier and the version stored under its key. -/
def renewed (s : Store) (d : Schema) : Schema :=
  match s.get? d.key with
  | some stored => { d with id := stored.id, version := stored.version }
  | none => d

/-- The store after some definitions were put over what is stored under their keys. -/
def loaded (s : Store) (definitions : List Schema) : Store :=
  definitions.foldl (fun s d => s.put (s.renewed d)) s

theorem renewed_of_some {s : Store} {d stored : Schema} (h : s.get? d.key = some stored) :
    s.renewed d = { d with id := stored.id, version := stored.version } := by
  rw [renewed, h]

theorem renewed_of_none {s : Store} {d : Schema} (h : s.get? d.key = none) : s.renewed d = d := by
  rw [renewed, h]

theorem exists_renewed_eq (s : Store) (d : Schema) :
    ∃ id version, s.renewed d = { d with id := id, version := version } := by
  cases hstored : s.get? d.key with
  | none => exact ⟨d.id, d.version, renewed_of_none hstored⟩
  | some stored => exact ⟨stored.id, stored.version, renewed_of_some hstored⟩

@[simp] theorem renewed_key (s : Store) (d : Schema) : (s.renewed d).key = d.key := by
  obtain ⟨id, version, heq⟩ := s.exists_renewed_eq d
  rw [heq]

@[simp] theorem renewed_children (s : Store) (d : Schema) :
    (s.renewed d).children = d.children := by
  obtain ⟨id, version, heq⟩ := s.exists_renewed_eq d
  rw [heq]
  rfl

theorem distinctNames_renewed_iff (s : Store) (d : Schema) :
    (s.renewed d).DistinctNames ↔ d.DistinctNames := by
  obtain ⟨id, version, heq⟩ := s.exists_renewed_eq d
  rw [heq]
  rfl

theorem accepts_renewed_iff (s : Store) (d : Schema) : s.Accepts (s.renewed d) ↔ s.Accepts d := by
  constructor
  · intro h
    refine ⟨?_, ?_⟩
    · simpa using h.children_stored
    · simpa using h.no_cycle
  · intro h
    refine ⟨?_, ?_⟩
    · simpa using h.children_stored
    · simpa using h.no_cycle

/-- A renewed definition has the stored version, unless it is new with a version of its own. -/
theorem renewed_version_iff (s : Store) (d : Schema) :
    (s.renewed d).version = s.version d.key ↔ (s.get? d.key = none → d.version = 0) := by
  cases hstored : s.get? d.key with
  | none => simp [renewed_of_none hstored, version, hstored]
  | some stored => simp [renewed_of_some hstored, version, hstored]

theorem overlaid_nil (s : Store) : s.Overlaid [] = s.Composes := by
  funext parent child
  simp [Overlaid]

theorem overlaid_singleton (s : Store) (d : Schema) :
    s.Overlaid [d] = Redirected s.Composes d.key d.children := by
  funext parent child
  by_cases h : parent = d.key
  · subst h
    simp [Overlaid, Redirected]
  · simp [Overlaid, Redirected, h, Ne.symm h]

/-- Only which definitions are laid over a store makes a difference. -/
theorem overlaid_congr (s : Store) {definitions others : List Schema}
    (h : ∀ d, d ∈ definitions ↔ d ∈ others) : s.Overlaid definitions = s.Overlaid others := by
  funext parent child
  simp only [Overlaid, List.mem_map, h]

/-- Putting the first definition leaves the others to be laid over what results. -/
theorem overlaid_put_renewed (s : Store) {d : Schema} {rest : List Schema}
    (hkey : d.key ∉ rest.map Schema.key) :
    (s.put (s.renewed d)).Overlaid rest = s.Overlaid (d :: rest) := by
  funext parent child
  rw [Overlaid, composes_put, renewed_key, renewed_children]
  refine propext ?_
  by_cases hparent : parent = d.key
  · rw [hparent, redirected_self_iff]
    constructor
    · rintro (⟨e, he, hekey, -⟩ | ⟨-, hchild⟩)
      · exact absurd (List.mem_map.2 ⟨e, he, hekey⟩) hkey
      · exact Or.inl ⟨d, List.mem_cons_self, rfl, hchild⟩
    · rintro (⟨e, he, hekey, hchild⟩ | ⟨hnot, -⟩)
      · rcases List.mem_cons.1 he with rfl | he
        · exact Or.inr ⟨hkey, hchild⟩
        · exact absurd (List.mem_map.2 ⟨e, he, hekey⟩) hkey
      · exact absurd List.mem_cons_self hnot
  · rw [redirected_iff_of_ne hparent]
    simp [Overlaid, hparent, Ne.symm hparent]

/-! ## Definitions that a store takes -/

/-- Definitions that can be saved in their order: each keeps the rules of saving, its children
are in front of it or stored, and no initial part of the definitions closes a cycle. -/
structure Takes (s : Store) (rule : KeyRule) (ordered : List Schema) : Prop where
  key_form : ∀ d ∈ ordered, rule.pattern.isFoundIn d.key = true
  distinct_names : ∀ d ∈ ordered, d.DistinctNames
  fresh_version : ∀ d ∈ ordered, s.get? d.key = none → d.version = 0
  children_known : ∀ front d back, ordered = front ++ d :: back → ∀ child ∈ d.children,
    child ∈ front.map Schema.key ∨ ∃ stored, s.get? child = some stored
  acyclic : ∀ front back, ordered = front ++ back → Acyclic (s.Overlaid front)

theorem takes_nil_iff (s : Store) (rule : KeyRule) : s.Takes rule [] ↔ Acyclic s.Composes := by
  constructor
  · intro h
    have hnone := h.acyclic [] [] rfl
    rw [overlaid_nil] at hnone
    exact hnone
  · intro h
    refine ⟨by simp, by simp, by simp, by simp, ?_⟩
    intro front back heq
    obtain ⟨rfl, -⟩ := List.append_eq_nil_iff.1 heq.symm
    rw [overlaid_nil]
    exact h

/-- A schema whose children are stored is accepted when laying it over the store closes no
cycle. -/
theorem accepts_iff_acyclic {s : Store} (h : Acyclic s.Composes) (d : Schema) :
    s.Accepts d ↔
      (∀ child ∈ d.children, ∃ stored, s.get? child = some stored) ∧ Acyclic (s.Overlaid [d]) := by
  rw [overlaid_singleton]
  constructor
  · intro haccepts
    exact ⟨fun child hchild => (haccepts.children_stored child hchild).2,
      h.redirected haccepts.no_cycle⟩
  · rintro ⟨hstored, hacyclic⟩
    refine ⟨fun child hchild => ⟨?_, hstored child hchild⟩, hacyclic d.key⟩
    rintro rfl
    exact hacyclic d.key (.single ((redirected_self_iff d.key).2 hchild))

section First

variable {s : Store} {rule : KeyRule} {d : Schema} {rest : List Schema}

/-- Putting a definition leaves what is stored under the keys of the others. -/
theorem get?_put_renewed_of_mem (hkey : d.key ∉ rest.map Schema.key) {e : Schema} (he : e ∈ rest) :
    (s.put (s.renewed d)).get? e.key = s.get? e.key := by
  refine get?_put_of_ne s _ ?_
  rw [renewed_key]
  intro heq
  exact hkey (List.mem_map.2 ⟨e, he, heq⟩)

theorem exists_get?_put_renewed_iff {key : String} :
    (∃ stored, (s.put (s.renewed d)).get? key = some stored) ↔
      key = d.key ∨ ∃ stored, s.get? key = some stored := by
  rw [get?_put, renewed_key]
  by_cases h : key = d.key
  · simp [h]
  · simp [h]

theorem overlaid_put_renewed_front {front back : List Schema} (hkey : d.key ∉ rest.map Schema.key)
    (heq : rest = front ++ back) :
    (s.put (s.renewed d)).Overlaid front = s.Overlaid (d :: front) := by
  refine overlaid_put_renewed s fun hin => hkey ?_
  rw [heq, List.map_append]
  exact List.mem_append_left _ hin

/-- The first definition taken can be saved. -/
theorem Takes.head (hacyclic : Acyclic s.Composes) (h : s.Takes rule (d :: rest)) :
    rule.pattern.isFoundIn d.key = true ∧ d.DistinctNames ∧ s.Accepts d ∧
      (s.get? d.key = none → d.version = 0) := by
  refine ⟨h.key_form d List.mem_cons_self, h.distinct_names d List.mem_cons_self, ?_,
    h.fresh_version d List.mem_cons_self⟩
  refine (accepts_iff_acyclic hacyclic d).2 ⟨fun child hchild => ?_, h.acyclic [d] rest rfl⟩
  simpa using h.children_known [] d rest rfl child hchild

/-- The other definitions taken are taken after the first. -/
theorem Takes.tail (hkey : d.key ∉ rest.map Schema.key) (h : s.Takes rule (d :: rest)) :
    (s.put (s.renewed d)).Takes rule rest where
  key_form := fun e he => h.key_form e (List.mem_cons_of_mem d he)
  distinct_names := fun e he => h.distinct_names e (List.mem_cons_of_mem d he)
  fresh_version := by
    intro e he
    rw [get?_put_renewed_of_mem hkey he]
    exact h.fresh_version e (List.mem_cons_of_mem d he)
  children_known := by
    intro front e back heq child hchild
    have hin := h.children_known (d :: front) e back (by rw [heq]; rfl) child hchild
    rw [List.map_cons, List.mem_cons] at hin
    rw [exists_get?_put_renewed_iff]
    tauto
  acyclic := by
    intro front back heq
    rw [overlaid_put_renewed_front hkey heq]
    exact h.acyclic (d :: front) back (by rw [heq]; rfl)

theorem Takes.cons (hacyclic : Acyclic s.Composes) (hkey : d.key ∉ rest.map Schema.key)
    (hform : rule.pattern.isFoundIn d.key = true) (hnames : d.DistinctNames) (haccepts : s.Accepts d)
    (hfresh : s.get? d.key = none → d.version = 0) (h : (s.put (s.renewed d)).Takes rule rest) :
    s.Takes rule (d :: rest) where
  key_form := List.forall_mem_cons.2 ⟨hform, h.key_form⟩
  distinct_names := List.forall_mem_cons.2 ⟨hnames, h.distinct_names⟩
  fresh_version := by
    refine List.forall_mem_cons.2 ⟨hfresh, fun e he => ?_⟩
    rw [← get?_put_renewed_of_mem hkey he]
    exact h.fresh_version e he
  children_known := by
    intro front e back heq child hchild
    cases front with
    | nil =>
        obtain ⟨rfl, -⟩ := List.cons.inj heq
        exact Or.inr (haccepts.children_stored child hchild).2
    | cons first front =>
        obtain ⟨rfl, htail⟩ := List.cons.inj heq
        have hin := h.children_known front e back htail child hchild
        rw [exists_get?_put_renewed_iff] at hin
        rw [List.map_cons, List.mem_cons]
        tauto
  acyclic := by
    intro front back heq
    cases front with
    | nil =>
        rw [overlaid_nil]
        exact hacyclic
    | cons first front =>
        obtain ⟨rfl, htail⟩ := List.cons.inj heq
        rw [← overlaid_put_renewed_front hkey htail]
        exact h.acyclic front back htail

/-- Definitions are taken when the first of them can be saved and the others are taken after
it. -/
theorem takes_cons_iff (hacyclic : Acyclic s.Composes) (hkey : d.key ∉ rest.map Schema.key) :
    s.Takes rule (d :: rest) ↔
      (rule.pattern.isFoundIn d.key = true ∧ d.DistinctNames ∧ s.Accepts d ∧
        (s.get? d.key = none → d.version = 0)) ∧ (s.put (s.renewed d)).Takes rule rest := by
  constructor
  · exact fun h => ⟨h.head hacyclic, h.tail hkey⟩
  · rintro ⟨⟨hform, hnames, haccepts, hfresh⟩, h⟩
    exact h.cons hacyclic hkey hform hnames haccepts hfresh

end First

/-! ## The store after a load -/

theorem get?_loaded_of_not_mem {definitions : List Schema} (s : Store) {key : String}
    (h : key ∉ definitions.map Schema.key) : (s.loaded definitions).get? key = s.get? key := by
  induction definitions generalizing s with
  | nil => rfl
  | cons d rest ih =>
      rw [List.map_cons, List.mem_cons, not_or] at h
      have hrest : (s.loaded (d :: rest)).get? key = (s.put (s.renewed d)).get? key :=
        ih (s.put (s.renewed d)) h.2
      rw [hrest]
      exact get?_put_of_ne s _ (by rw [renewed_key]; exact h.1)

/-- A loaded definition is stored with the next version; it keeps an identifier that was
stored under its key. -/
theorem get?_loaded_of_mem {definitions : List Schema} (s : Store)
    (hkeys : (definitions.map Schema.key).Nodup)
    (hfresh : ∀ d ∈ definitions, s.get? d.key = none → d.version = 0) {d : Schema}
    (hd : d ∈ definitions) :
    ∃ id, (s.loaded definitions).get? d.key =
        some { d with id := some id, version := s.version d.key + 1 } ∧
      ∀ stored, s.get? d.key = some stored → ∀ given, stored.id = some given → id = given := by
  induction definitions generalizing s with
  | nil => cases hd
  | cons e rest ih =>
      rw [List.map_cons, List.nodup_cons] at hkeys
      rcases List.mem_cons.1 hd with rfl | hd
      · have hlater : (s.loaded (d :: rest)).get? d.key = (s.put (s.renewed d)).get? d.key :=
          get?_loaded_of_not_mem (s.put (s.renewed d)) hkeys.1
        have hput : (s.put (s.renewed d)).get? d.key = some (s.stamp (s.renewed d)) := by
          rw [get?_put, renewed_key, if_pos rfl]
        have hversion := (renewed_version_iff s d).2 (hfresh d List.mem_cons_self)
        refine ⟨(s.renewed d).id.getD (s.lastId + 1), ?_, ?_⟩
        · obtain ⟨id, version, heq⟩ := s.exists_renewed_eq d
          rw [hlater, hput, stamp, ← hversion, heq]
        · intro stored hstored given hgiven
          rw [renewed_of_some hstored]
          simp [hgiven]
      · have hsame : ∀ f ∈ rest, (s.put (s.renewed e)).get? f.key = s.get? f.key :=
          fun f hf => get?_put_renewed_of_mem hkeys.1 hf
        have hrest := ih (s.put (s.renewed e)) hkeys.2
          (fun f hf hnone => hfresh f (List.mem_cons_of_mem e hf) (by rw [← hsame f hf]; exact hnone))
          hd
        rw [version, hsame d hd] at hrest
        exact hrest

end Store

namespace Catalog

theorem refresh_eq_ok {c : Catalog} (hanswers : c.outages = .none) (d : Schema) :
    c.refresh d = .ok (c.store.renewed d) := by
  rw [refresh, lookup_eq_ok hanswers]
  cases hstored : c.store.get? d.key with
  | none =>
      rw [Store.renewed_of_none hstored]
      rfl
  | some stored =>
      rw [Store.renewed_of_some hstored]
      rfl

/-- The step of a load: a definition is saved when it keeps the rules and is not new with a
version of its own. -/
theorem refresh_save_eq_ok_iff {c c' : Catalog} (hindexed : c.store.Indexed)
    (hanswers : c.outages = .none) {d saved : Schema} :
    c.refresh d >>= c.save = .ok (saved, c') ↔
      (c.keyRule.pattern.isFoundIn d.key = true ∧ d.DistinctNames ∧ c.store.Accepts d ∧
        (c.store.get? d.key = none → d.version = 0)) ∧
      saved = c.store.stamp (c.store.renewed d) ∧
      c' = { c with store := c.store.put (c.store.renewed d) } := by
  have hsave : c.refresh d >>= c.save = c.save (c.store.renewed d) := by
    rw [refresh_eq_ok hanswers]
    rfl
  have hup : c.outages.save (c.store.renewed d).key = false := by
    rw [hanswers]
    rfl
  rw [hsave, save_eq_ok_iff, storeSave_eq_ok_iff, checkComposition_eq_ok_iff_accepts hindexed hanswers,
    Store.accepts_renewed_iff, Store.distinctNames_renewed_iff, Store.renewed_key,
    Store.renewed_version_iff]
  rw [Store.renewed_key] at hup
  simp only [hup, true_and]
  tauto

/-- All definitions are saved exactly when the store takes them in their order, and then they
are put one after the other. -/
theorem saveAll_succeeds_iff {c : Catalog} (hindexed : c.store.Indexed)
    (hanswers : c.outages = .none) (hacyclic : Acyclic c.store.Composes) {ordered : List Schema}
    (hkeys : (ordered.map Schema.key).Nodup) :
    ((∃ saved, (c.saveAll ordered).1 = .ok saved) ↔ c.store.Takes c.keyRule ordered) ∧
      ∀ saved, (c.saveAll ordered).1 = .ok saved →
        (c.saveAll ordered).2 = { c with store := c.store.loaded ordered } := by
  induction ordered generalizing c with
  | nil =>
      rw [Store.takes_nil_iff]
      exact ⟨⟨fun _ => hacyclic, fun _ => ⟨[], rfl⟩⟩, fun _ _ => rfl⟩
  | cons d rest ih =>
      rw [List.map_cons, List.nodup_cons] at hkeys
      rw [Store.takes_cons_iff hacyclic hkeys.1, saveAll]
      cases hstep : c.refresh d >>= c.save with
      | error e =>
          -- the step fails, and so one of its conditions does
          refine ⟨⟨?_, ?_⟩, ?_⟩
          · rintro ⟨saved, h⟩
            cases h
          · rintro ⟨hrules, -⟩
            have hok := (refresh_save_eq_ok_iff hindexed hanswers).2 ⟨hrules, rfl, rfl⟩
            rw [hstep] at hok
            cases hok
          · intro saved h
            cases h
      | ok result =>
          obtain ⟨first, c'⟩ := result
          obtain ⟨hrules, -, rfl⟩ := (refresh_save_eq_ok_iff hindexed hanswers).1 hstep
          have hafter : Acyclic (c.store.put (c.store.renewed d)).Composes := by
            rw [← Store.overlaid_nil, Store.overlaid_put_renewed c.store List.not_mem_nil]
            exact ((Store.accepts_iff_acyclic hacyclic d).1 hrules.2.2.1).2
          obtain ⟨hiff, hthen⟩ := ih (c := { c with store := c.store.put (c.store.renewed d) })
            (hindexed.put _) hanswers hafter hkeys.2
          refine ⟨?_, ?_⟩
          · rw [and_iff_right hrules, ← hiff]
            constructor
            · rintro ⟨saved, h⟩
              obtain ⟨others, hothers, -⟩ := map_eq_ok_iff.1 h
              exact ⟨others, hothers⟩
            · rintro ⟨others, hothers⟩
              exact ⟨first :: others, map_eq_ok_iff.2 ⟨others, hothers, rfl⟩⟩
          · intro saved h
            obtain ⟨others, hothers, -⟩ := map_eq_ok_iff.1 h
            exact hthen others hothers

/-- A load succeeds when the definitions can be arranged and the store takes them so. -/
theorem load_succeeds_iff {c : Catalog} (hindexed : c.store.Indexed)
    (hanswers : c.outages = .none) (hacyclic : Acyclic c.store.Composes)
    (definitions : List Schema) :
    (∃ saved, (c.load definitions).1 = .ok saved) ↔
      ∃ ordered, arrange definitions = .ok ordered ∧ c.store.Takes c.keyRule ordered := by
  rw [load]
  cases harrange : arrange definitions with
  | error e => simp
  | ok ordered =>
      have hkeys := SaveOrder.nodup_keys_of_arrange harrange
      simpa using (saveAll_succeeds_iff hindexed hanswers hacyclic hkeys).1

/-- What a catalog holds after a load that succeeds. -/
theorem load_snd_of_ok {c : Catalog} (hindexed : c.store.Indexed)
    (hanswers : c.outages = .none) (hacyclic : Acyclic c.store.Composes)
    {definitions saved : List Schema} (h : (c.load definitions).1 = .ok saved) :
    ∃ ordered, ordered.Perm definitions ∧ (ordered.map Schema.key).Nodup ∧
      c.store.Takes c.keyRule ordered ∧
      (c.load definitions).2 = { c with store := c.store.loaded ordered } := by
  rw [load] at h ⊢
  cases harrange : arrange definitions with
  | error e =>
      rw [harrange] at h
      cases h
  | ok ordered =>
      rw [harrange] at h
      obtain ⟨hperm, -⟩ := SaveOrder.arranged harrange
      have hkeys := SaveOrder.nodup_keys_of_arrange harrange
      obtain ⟨hiff, hthen⟩ := saveAll_succeeds_iff hindexed hanswers hacyclic hkeys
      exact ⟨ordered, hperm, hkeys, hiff.1 ⟨saved, h⟩, hthen saved h⟩

end Catalog

end SchemaCatalog
