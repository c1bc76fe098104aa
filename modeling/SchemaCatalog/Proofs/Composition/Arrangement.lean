import SchemaCatalog.Proofs.Composition.DepthFirst
import SchemaCatalog.Proofs.Schema.Members

/-!
# Arranged definitions

Definitions are arranged children first when every one of them comes after those of the list
that it is composed of (`ChildrenFirst`). With distinct keys the order of finishing holds each
definition once (`inFinishOrder_perm`). If their composition has no cycle, that order is
children first (`childrenFirst_inFinishOrder`); and an order that is children first leaves no
room for a cycle (`ChildrenFirst.acyclic`). So definitions can be arranged exactly when their
keys are distinct and their composition among themselves has no cycle (`arrange_exact`).
Children outside the list make no difference (`composedAmong_of_sameInside`).
-/

set_option autoImplicit false

namespace SchemaCatalog.SaveOrder

open Relation
open CompositionGraph (Next)

variable {definitions : List Schema}

/-- A definition of a list is composed of the key of a definition of the list. -/
def ComposedAmong (definitions : List Schema) (parent child : String) : Prop :=
  child ∈ definitions.map Schema.key ∧ ∃ d ∈ definitions, d.key = parent ∧ child ∈ d.children

/-- Every definition of a list comes after those of the list that it is composed of. -/
def ChildrenFirst (definitions : List Schema) : Prop :=
  ∀ front d back, definitions = front ++ d :: back →
    ∀ child ∈ d.children, child ∈ definitions.map Schema.key → child ∈ front.map Schema.key

/-- Composition among definitions does not depend on their order. -/
theorem composedAmong_of_perm {others : List Schema} (h : others.Perm definitions) :
    ComposedAmong others = ComposedAmong definitions := by
  funext parent child
  simp only [ComposedAmong, (h.map Schema.key).mem_iff, h.mem_iff]

/-! ## Definitions by their keys -/

/-- In a list without repetitions, what stands behind a key at one splitting has the key in
front of it at its own. -/
theorem mem_front_of_nodup {keys front back before after : List String} {first second : String}
    (hnodup : keys.Nodup) (hsecond : keys = front ++ second :: back)
    (hfirst : keys = before ++ first :: after) (hin : second ∈ after) : first ∈ front := by
  obtain ⟨between, rest, rfl⟩ := List.append_of_mem hin
  have hsplit : (before ++ first :: between) ++ second :: rest = front ++ second :: back := by
    rw [← hsecond, hfirst]
    simp
  rw [hfirst, ← List.cons_append, ← List.append_assoc] at hnodup
  obtain ⟨-, hlater, hapart⟩ := List.nodup_append.1 hnodup
  have hnotBefore : second ∉ before ++ first :: between :=
    fun h => hapart second h second List.mem_cons_self rfl
  have hnotAfter : second ∉ rest := (List.nodup_cons.1 hlater).1
  obtain ⟨hfront, -, -⟩ := (List.append_cons_inj_of_notMem hnotBefore hnotAfter).1 hsplit
  rw [← hfront]
  simp

/-- A definition is found under its key. -/
theorem find?_key_eq_some (hkeys : (definitions.map Schema.key).Nodup) {d : Schema}
    (hd : d ∈ definitions) : (definitions.find? fun e => e.key == d.key) = some d := by
  obtain ⟨found, hfound⟩ : ∃ found, (definitions.find? fun e => e.key == d.key) = some found := by
    rw [← Option.isSome_iff_exists, List.find?_isSome]
    exact ⟨d, hd, by simp⟩
  have hkey : found.key = d.key := by simpa using List.find?_some hfound
  have hsame : found = d :=
    List.inj_on_of_nodup_map hkeys (List.mem_of_find?_eq_some hfound) hd hkey
  rw [hfound, hsame]

/-- The search for a first repeated key is the search for repeated names among the keys. -/
theorem repeatedKey?_eq_none_iff (seen : List String) (definitions : List Schema) :
    repeatedKey? seen definitions = none ↔
      Schema.repeats seen [] (definitions.map Schema.key) = [] := by
  induction definitions generalizing seen with
  | nil => simp [repeatedKey?, Schema.repeats]
  | cons d rest ih =>
      by_cases hseen : d.key ∈ seen
      · simp [repeatedKey?, Schema.repeats, hseen]
      · have hstep : repeatedKey? seen (d :: rest) = repeatedKey? (d.key :: seen) rest := by
          simp [repeatedKey?, hseen]
        rw [hstep, ih]
        simp [Schema.repeats, hseen]

theorem repeatedKey?_nil_eq_none_iff (definitions : List Schema) :
    repeatedKey? [] definitions = none ↔ (definitions.map Schema.key).Nodup := by
  rw [repeatedKey?_eq_none_iff, Schema.repeats_eq_nil_iff]
  simp

/-- The check of the order asks of every definition that its children came before it. -/
theorem childrenFirst_eq_true_iff (keys before : List String) (ordered : List Schema) :
    childrenFirst keys before ordered = true ↔
      ∀ front d back, ordered = front ++ d :: back →
        ∀ child ∈ d.children, child ∈ keys → child ∈ front.map Schema.key ∨ child ∈ before := by
  induction ordered generalizing before with
  | nil => simp [childrenFirst]
  | cons e rest ih =>
      have hhead : (e.children.all fun child => !keys.contains child || before.contains child) = true ↔
          ∀ child ∈ e.children, child ∈ keys → child ∈ before := by
        simp [List.all_eq_true, imp_iff_not_or]
      rw [childrenFirst, Bool.and_eq_true, hhead, ih]
      constructor
      · rintro ⟨hfirst, hrest⟩ front d back heq child hchild hkey
        cases front with
        | nil =>
            obtain ⟨rfl, -⟩ := List.cons.inj heq
            exact Or.inr (hfirst child hchild hkey)
        | cons e' front =>
            obtain ⟨rfl, htail⟩ := List.cons.inj heq
            rcases hrest front d back htail child hchild hkey with hin | hin
            · exact Or.inl (List.mem_cons_of_mem _ hin)
            · rcases List.mem_cons.1 hin with rfl | hin
              · exact Or.inl List.mem_cons_self
              · exact Or.inr hin
      · intro hall
        refine ⟨fun child hchild hkey => ?_, fun front d back heq child hchild hkey => ?_⟩
        · simpa using hall [] e rest rfl child hchild hkey
        · have hin := hall (e :: front) d back (by rw [heq]; rfl) child hchild hkey
          rw [List.map_cons, List.mem_cons] at hin
          rw [List.mem_cons]
          tauto

/-! ## The order of finishing -/

/-- The definitions in the order of finishing, the last one first. -/
def inFinishOrder (definitions : List Schema) : List Schema :=
  (finishOrder definitions).filterMap fun key => definitions.find? fun d => d.key == key

theorem mem_parentsAmong_iff (definitions : List Schema) (key parent : String) :
    parent ∈ parentsAmong definitions key ↔
      ∃ d ∈ definitions, d.key = parent ∧ key ∈ d.children := by
  constructor
  · intro h
    obtain ⟨d, hd, rfl⟩ := List.mem_map.1 h
    obtain ⟨hmem, hchild⟩ := List.mem_filter.1 hd
    exact ⟨d, hmem, rfl, by simpa using hchild⟩
  · rintro ⟨d, hmem, rfl, hchild⟩
    exact List.mem_map.2 ⟨d, List.mem_filter.2 ⟨hmem, by simpa using hchild⟩, rfl⟩

theorem parentsAmong_subset (definitions : List Schema) (key : String) :
    parentsAmong definitions key ⊆ definitions.map Schema.key := by
  intro parent h
  obtain ⟨d, hd, rfl, -⟩ := (mem_parentsAmong_iff definitions key parent).1 h
  exact List.mem_map.2 ⟨d, hd, rfl⟩

/-- The search along the parents goes through all definitions. -/
theorem explores_definitions (definitions : List Schema) :
    Explores (parentsAmong definitions) ⟨[], []⟩ (definitions.map Schema.key)
      ((definitions.map Schema.key).foldl
        (visit (parentsAmong definitions) definitions.length) ⟨[], []⟩) := by
  refine explores_foldl_visit (parentsAmong_subset definitions) definitions.length
    List.nodup_nil (List.nil_subset _) (List.nil_subset _) (List.Subset.refl _) ?_
  rw [List.length_map]
  exact Nat.le_add_right _ _

/-- With distinct keys, every key finishes once. -/
theorem finishOrder_perm (hkeys : (definitions.map Schema.key).Nodup) :
    (finishOrder definitions).Perm (definitions.map Schema.key) := by
  have hexplores := explores_definitions definitions
  obtain ⟨new, hfinished, hdiscovered⟩ := hexplores.grown
  rw [List.append_nil] at hfinished hdiscovered
  have hnodup := hexplores.nodup List.nodup_nil
  have hsub := hexplores.keys_subset
  have hwithin := hexplores.within (parentsAmong_subset definitions) (List.Subset.refl _)
    (List.nil_subset _)
  have hperm := (List.perm_ext_iff_of_nodup hnodup hkeys).2 fun key =>
    ⟨fun h => hwithin h, fun h => hsub h⟩
  have hfinish : finishOrder definitions = new := hfinished
  rw [hfinish]
  exact hdiscovered.symm.trans hperm

/-- Looking up the keys of definitions of the list gives these definitions. -/
theorem filterMap_find?_key (hkeys : (definitions.map Schema.key).Nodup) {others : List Schema}
    (hsub : others ⊆ definitions) :
    (others.map Schema.key).filterMap (fun key => definitions.find? fun d => d.key == key) =
      others := by
  have hsome : ∀ d ∈ others,
      ((fun key => definitions.find? fun e => e.key == key) ∘ Schema.key) d = some d :=
    fun d hd => find?_key_eq_some hkeys (hsub hd)
  rw [List.filterMap_map, List.filterMap_congr hsome]
  exact List.filterMap_some

/-- Arranging neither loses a definition nor repeats one. -/
theorem inFinishOrder_perm (hkeys : (definitions.map Schema.key).Nodup) :
    (inFinishOrder definitions).Perm definitions := by
  have hperm := (finishOrder_perm hkeys).filterMap
    fun key => definitions.find? fun d => d.key == key
  rw [filterMap_find?_key hkeys (List.Subset.refl _)] at hperm
  exact hperm

theorem map_key_inFinishOrder (hkeys : (definitions.map Schema.key).Nodup) :
    (inFinishOrder definitions).map Schema.key = finishOrder definitions := by
  rw [inFinishOrder, List.map_filterMap]
  have hfound : ∀ key ∈ finishOrder definitions,
      (definitions.find? fun d => d.key == key).map Schema.key = some key := by
    intro key hkey
    obtain ⟨d, hd, rfl⟩ := List.mem_map.1 ((finishOrder_perm hkeys).mem_iff.1 hkey)
    rw [find?_key_eq_some hkeys hd, Option.map_some]
  rw [List.filterMap_congr hfound]
  exact List.filterMap_some

/-- A way along the parents is a way of composition back. -/
theorem transGen_composedAmong {key parent : String} (hkey : key ∈ definitions.map Schema.key)
    (h : TransGen (Next (parentsAmong definitions)) key parent) :
    TransGen (ComposedAmong definitions) parent key := by
  induction h with
  | single hstep => exact .single ⟨hkey, (mem_parentsAmong_iff definitions key _).1 hstep⟩
  | @tail between parent hway hstep ih =>
      have hbetween : between ∈ definitions.map Schema.key := by
        obtain ⟨before, -, hlast⟩ := TransGen.tail'_iff.1 hway
        exact parentsAmong_subset definitions before hlast
      exact .head ⟨hbetween, (mem_parentsAmong_iff definitions between parent).1 hstep⟩ ih

theorem acyclic_parentsAmong (h : Acyclic (ComposedAmong definitions)) :
    Acyclic (Next (parentsAmong definitions)) := by
  intro key hcycle
  -- a key on a cycle is the parent of another one, and so the key of a definition
  obtain ⟨before, -, hlast⟩ := TransGen.tail'_iff.1 hcycle
  exact h key (transGen_composedAmong (parentsAmong_subset definitions before hlast) hcycle)

/-- Without cycles the order of finishing has the children first. -/
theorem childrenFirst_inFinishOrder (hkeys : (definitions.map Schema.key).Nodup)
    (hacyclic : Acyclic (ComposedAmong definitions)) : ChildrenFirst (inFinishOrder definitions) := by
  intro front d back heq child hchild hmem
  obtain ⟨hfront, -, -⟩ := (explores_definitions definitions).inFront
    (acyclic_parentsAmong hacyclic) [] (by simp) (by simp) trivial
  have hperm := inFinishOrder_perm hkeys
  have hd : d ∈ definitions := hperm.mem_iff.1 (by rw [heq]; simp)
  have hparent : d.key ∈ parentsAmong definitions child :=
    (mem_parentsAmong_iff definitions child d.key).2 ⟨d, hd, rfl, hchild⟩
  -- `child` stands in front of its parent in the order of finishing
  obtain ⟨before, after, hsplit⟩ := List.append_of_mem hmem
  have hbehind : d.key ∈ after := by
    have hinFront : InFront (parentsAmong definitions) (finishOrder definitions) := hfront
    rw [← map_key_inFinishOrder hkeys, hsplit] at hinFront
    exact hinFront.subset_back hparent
  have hplace : (inFinishOrder definitions).map Schema.key =
      front.map Schema.key ++ d.key :: back.map Schema.key := by
    rw [heq, List.map_append, List.map_cons]
  exact mem_front_of_nodup ((hperm.map Schema.key).nodup_iff.2 hkeys) hplace hsplit hbehind

/-! ## Orders and cycles -/

/-- Where the children come first, a way of composition leads to the front. -/
theorem ChildrenFirst.mem_front (h : ChildrenFirst definitions)
    (hkeys : (definitions.map Schema.key).Nodup) {key target : String}
    (hway : TransGen (ComposedAmong definitions) key target) :
    ∀ front d back, definitions = front ++ d :: back → d.key = key →
      target ∈ front.map Schema.key := by
  -- each step leads from a definition to one in front of it
  have hstep : ∀ {key child : String}, ComposedAmong definitions key child →
      ∀ front d back, definitions = front ++ d :: back → d.key = key →
        child ∈ front.map Schema.key := by
    rintro key child ⟨hchildKey, e, he, hekey, hchild⟩ front d back heq hdkey
    have hd : d ∈ definitions := by
      rw [heq]
      simp
    have hsame : e = d := List.inj_on_of_nodup_map hkeys he hd (hekey.trans hdkey.symm)
    rw [hsame] at hchild
    exact h front d back heq child hchild hchildKey
  induction hway using TransGen.head_induction_on with
  | single hlast => exact hstep hlast
  | head hfirst _ ih =>
      intro front d back heq hdkey
      obtain ⟨e, he, hekey⟩ := List.mem_map.1 (hstep hfirst front d back heq hdkey)
      obtain ⟨before, after, hfront⟩ := List.append_of_mem he
      have hin := ih before e (after ++ d :: back) (by rw [heq, hfront]; simp) hekey
      rw [hfront, List.map_append]
      exact List.mem_append_left _ hin

/-- Definitions in an order with the children first do not form a cycle. -/
theorem ChildrenFirst.acyclic (h : ChildrenFirst definitions)
    (hkeys : (definitions.map Schema.key).Nodup) : Acyclic (ComposedAmong definitions) := by
  intro key hcycle
  obtain ⟨child, ⟨-, d, hd, hdkey, -⟩, -⟩ := TransGen.head'_iff.1 hcycle
  obtain ⟨front, back, heq⟩ := List.append_of_mem hd
  have hfront := h.mem_front hkeys hcycle front d back heq hdkey
  rw [heq, List.map_append, List.map_cons, hdkey] at hkeys
  exact (List.nodup_append.1 hkeys).2.2 key hfront key List.mem_cons_self rfl

/-! ## Arranging -/

/-- Definitions are arranged in the order of finishing or not at all. -/
theorem arrange_eq_ok_iff {ordered : List Schema} :
    arrange definitions = .ok ordered ↔
      (definitions.map Schema.key).Nodup ∧ Acyclic (ComposedAmong definitions) ∧
        ordered = inFinishOrder definitions := by
  rw [← repeatedKey?_nil_eq_none_iff]
  cases hrepeated : repeatedKey? [] definitions with
  | some key => simp [arrange, hrepeated]
  | none =>
      have hkeys := (repeatedKey?_nil_eq_none_iff definitions).1 hrepeated
      have hperm := inFinishOrder_perm hkeys
      -- the check reads the keys in their first order, which makes no difference to it
      have hcheck : childrenFirst (definitions.map Schema.key) [] (inFinishOrder definitions) = true ↔
          Acyclic (ComposedAmong definitions) := by
        have hsame : childrenFirst (definitions.map Schema.key) [] (inFinishOrder definitions) = true ↔
            ChildrenFirst (inFinishOrder definitions) := by
          rw [childrenFirst_eq_true_iff]
          simp [ChildrenFirst, (hperm.map Schema.key).mem_iff]
        rw [hsame]
        constructor
        · intro hfirst
          rw [← composedAmong_of_perm hperm]
          exact hfirst.acyclic ((hperm.map Schema.key).nodup_iff.2 hkeys)
        · exact childrenFirst_inFinishOrder hkeys
      have harrange : arrange definitions =
          if childrenFirst (definitions.map Schema.key) [] (inFinishOrder definitions) then
            .ok (inFinishOrder definitions)
          else .error (.cyclicDefinitions (cyclicKeys definitions)) := by
        simp only [arrange, hrepeated]
        rfl
      rw [harrange, ← hcheck]
      split
      · rename_i hfirst
        simp [hfirst, eq_comm]
      · rename_i hcycle
        simp [hcycle]

/-- Definitions that are arranged stay the same definitions, with the children first. -/
theorem arranged {ordered : List Schema} (h : arrange definitions = .ok ordered) :
    ordered.Perm definitions ∧ ChildrenFirst ordered := by
  obtain ⟨hkeys, hacyclic, rfl⟩ := arrange_eq_ok_iff.1 h
  exact ⟨inFinishOrder_perm hkeys, childrenFirst_inFinishOrder hkeys hacyclic⟩

theorem nodup_keys_of_arrange {ordered : List Schema} (h : arrange definitions = .ok ordered) :
    (ordered.map Schema.key).Nodup := by
  obtain ⟨hperm, -⟩ := arranged h
  obtain ⟨hkeys, -⟩ := arrange_eq_ok_iff.1 h
  exact (hperm.map Schema.key).nodup_iff.2 hkeys

/-! ## Every order with the children first -/

/-- Two lists with their children first are one, if the first is not composed of what only
the second holds. -/
theorem ChildrenFirst.append {first second : List Schema} (h : ChildrenFirst first)
    (h' : ChildrenFirst second) (hclosed : ∀ d ∈ first, ∀ child ∈ d.children,
      child ∈ second.map Schema.key → child ∈ first.map Schema.key) :
    ChildrenFirst (first ++ second) := by
  intro front d back heq child hchild hmem
  rw [List.map_append, List.mem_append] at hmem
  rcases List.append_eq_append_iff.1 heq with ⟨middle, hfront, hsecond⟩ | ⟨middle, hfirst, hrest⟩
  · -- `d` stands in the second list, behind all of the first
    rw [hfront, List.map_append, List.mem_append]
    rcases hmem with hin | hin
    · exact Or.inl hin
    · exact Or.inr (h' middle d back hsecond child hchild hin)
  · cases middle with
    | nil =>
        rw [List.append_nil] at hfirst
        rw [List.nil_append] at hrest
        rcases hmem with hin | hin
        · rw [← hfirst]
          exact hin
        · exact absurd (h' [] d back hrest.symm child hchild hin) List.not_mem_nil
    | cons e middle =>
        obtain ⟨rfl, -⟩ := List.cons.inj hrest
        have hd : d ∈ first := by
          rw [hfirst]
          simp
        have hin : child ∈ first.map Schema.key := hmem.elim id (hclosed d hd child hchild)
        exact h front d middle hfirst child hchild hin

/-- Definitions that come in the opposite of such an order are arranged in it. -/
theorem arrange_reverse (h : ChildrenFirst definitions)
    (hkeys : (definitions.map Schema.key).Nodup) : arrange definitions.reverse = .ok definitions := by
  have hperm : definitions.reverse.Perm definitions := List.reverse_perm definitions
  have hkeysReverse : (definitions.reverse.map Schema.key).Nodup :=
    (hperm.map Schema.key).nodup_iff.2 hkeys
  -- whatever is composed of a definition stands in front of it now and is known already
  have hknown : ∀ front key back, definitions.reverse.map Schema.key = front ++ key :: back →
      ∀ parent ∈ parentsAmong definitions.reverse key, parent ∈ front := by
    intro front key back heq parent hparent
    obtain ⟨d, hd, rfl, hchild⟩ := (mem_parentsAmong_iff _ _ _).1 hparent
    obtain ⟨before, after, hsplit⟩ := List.append_of_mem (hperm.mem_iff.1 hd)
    have hkey : key ∈ definitions.map Schema.key := by
      rw [← (hperm.map Schema.key).mem_iff, heq]
      simp
    have hbefore : key ∈ before.map Schema.key := h before d after hsplit key hchild hkey
    have hreverse : definitions.reverse.map Schema.key =
        after.reverse.map Schema.key ++ d.key :: before.reverse.map Schema.key := by
      rw [hsplit]
      simp
    exact mem_front_of_nodup hkeysReverse heq hreverse (by simpa using hbefore)
  have hexplores := explores_in_order (s := ⟨[], []⟩) hkeysReverse (by simp)
    (fun front key back heq parent hparent => Or.inl (hknown front key back heq parent hparent))
  have hfinish : finishOrder definitions.reverse = definitions.map Schema.key := by
    have hsame := (explores_definitions definitions.reverse).unique hexplores
    rw [finishOrder, hsame]
    simp
  rw [arrange_eq_ok_iff, composedAmong_of_perm hperm]
  refine ⟨hkeysReverse, h.acyclic hkeys, ?_⟩
  rw [inFinishOrder, hfinish]
  exact (filterMap_find?_key hkeysReverse hperm.symm.subset).symm

/-! ## Children outside the list -/

/-- The key of a definition and its children among some keys are those of another one. -/
def SameInside (keys : List String) (d e : Schema) : Prop :=
  e.key = d.key ∧ ∀ key ∈ keys, key ∈ e.children ↔ key ∈ d.children

theorem map_key_eq_of_sameInside {keys : List String} {others : List Schema}
    (h : List.Forall₂ (SameInside keys) definitions others) :
    others.map Schema.key = definitions.map Schema.key := by
  induction h with
  | nil => rfl
  | cons hhead _ ih => rw [List.map_cons, List.map_cons, hhead.1, ih]

/-- A composed definition is matched by one with the same key and the same child. -/
theorem composed_iff_of_sameInside {keys : List String} {others : List Schema}
    (h : List.Forall₂ (SameInside keys) definitions others) (parent : String) {child : String}
    (hchild : child ∈ keys) :
    (∃ e ∈ others, e.key = parent ∧ child ∈ e.children) ↔
      ∃ d ∈ definitions, d.key = parent ∧ child ∈ d.children := by
  induction h with
  | nil => simp
  | @cons d e _ _ hhead _ ih =>
      have hfirst : e.key = parent ∧ child ∈ e.children ↔ d.key = parent ∧ child ∈ d.children := by
        rw [hhead.1, hhead.2 child hchild]
      rw [List.exists_mem_cons_iff, List.exists_mem_cons_iff, ih, hfirst]

/-- Children outside the list play no part in the composition among its definitions. -/
theorem composedAmong_of_sameInside {others : List Schema}
    (h : List.Forall₂ (SameInside (definitions.map Schema.key)) definitions others) :
    ComposedAmong others = ComposedAmong definitions := by
  funext parent child
  have hkeys := map_key_eq_of_sameInside h
  refine propext ⟨?_, ?_⟩
  · rintro ⟨hchild, hcomposed⟩
    rw [hkeys] at hchild
    exact ⟨hchild, (composed_iff_of_sameInside h parent hchild).1 hcomposed⟩
  · rintro ⟨hchild, hcomposed⟩
    refine ⟨?_, (composed_iff_of_sameInside h parent hchild).2 hcomposed⟩
    rw [hkeys]
    exact hchild

theorem exists_arrange_eq_ok_iff (definitions : List Schema) :
    (∃ ordered, arrange definitions = .ok ordered) ↔
      (definitions.map Schema.key).Nodup ∧ Acyclic (ComposedAmong definitions) := by
  constructor
  · rintro ⟨ordered, h⟩
    obtain ⟨hkeys, hacyclic, -⟩ := arrange_eq_ok_iff.1 h
    exact ⟨hkeys, hacyclic⟩
  · rintro ⟨hkeys, hacyclic⟩
    exact ⟨_, arrange_eq_ok_iff.2 ⟨hkeys, hacyclic, rfl⟩⟩

/-- Definitions can be arranged exactly when their keys are distinct and their composition
among themselves has no cycle; they stay the same definitions then, every one comes after
those that it is composed of, and they stand in the order in which a search with a stack
finishes them, the last one first. Children outside the list are of no account. -/
theorem arrange_exact (definitions : List Schema) :
    ((∃ ordered, arrange definitions = .ok ordered) ↔
      (definitions.map Schema.key).Nodup ∧ Acyclic (ComposedAmong definitions)) ∧
    (∀ ordered, arrange definitions = .ok ordered →
      ordered.Perm definitions ∧ ChildrenFirst ordered ∧
        ∃ s, Turns (parentsAmong definitions) (⟨[], []⟩, definitions.map Schema.key) (s, []) ∧
          ordered.map Schema.key = s.finished) ∧
    ∀ others, List.Forall₂ (SameInside (definitions.map Schema.key)) definitions others →
      ((∃ ordered, arrange others = .ok ordered) ↔
        ∃ ordered, arrange definitions = .ok ordered) := by
  refine ⟨exists_arrange_eq_ok_iff definitions, ?_, ?_⟩
  · intro ordered h
    obtain ⟨hperm, hfirst⟩ := arranged h
    obtain ⟨hkeys, -, rfl⟩ := arrange_eq_ok_iff.1 h
    -- at first nothing is known and all definitions lie on the stack
    have hturns := (explores_definitions definitions).turns [] []
      ⟨List.nodup_nil, List.nil_subset _⟩ (List.nil_subset _) (by simp)
    have hall : (definitions.map Schema.key).filter (fun k => !([] : List String).contains k) ++ [] =
        definitions.map Schema.key := by simp
    rw [hall] at hturns
    exact ⟨hperm, hfirst, _, hturns, map_key_inFinishOrder hkeys⟩
  · intro others hsame
    rw [exists_arrange_eq_ok_iff, exists_arrange_eq_ok_iff, map_key_eq_of_sameInside hsame,
      composedAmong_of_sameInside hsame]

end SchemaCatalog.SaveOrder
