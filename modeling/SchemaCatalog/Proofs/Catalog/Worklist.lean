import SchemaCatalog.Catalog.Related
import SchemaCatalog.Proofs.Keyed
import SchemaCatalog.Proofs.Results
import Mathlib.Data.List.Perm.Subperm
import Mathlib.Logic.Relation

/-!
# Work through a stack of schemas

The schemas related to a root are found by work through a stack: the first schema on it is
looked into unless that was done before, and the schemas that it refers to are put in front of
the others (`Relations.Works`). What is expanded, grouped and still on the stack stays in step
from turn to turn (`Relations.Underway`), so that at the end exactly the reachable schemas were
looked into (`Relations.Underway.mem_expanded_iff`), or one of them refers to a key that is not
found (`Relations.Works.ends`).

The search that goes down from a schema to its related ones does the same work, and its bound
is never used up (`Relations.works_expand`).
-/

set_option autoImplicit false

namespace SchemaCatalog

open Relation

/-! ## The order of first occurrence -/

/-- The members of a list, each once, in the order in which they occur in it first. -/
structure InFirstOrder (keys ordered : List String) : Prop where
  mem_iff : ∀ key, key ∈ ordered ↔ key ∈ keys
  ordered : ordered.Pairwise fun a b => keys.idxOf a < keys.idxOf b

/-- Leaving out other keys keeps the order of first occurrences. -/
theorem idxOf_lt_of_filter {p : String → Bool} {a b : String} (ha : p a = true) (hb : p b = true)
    {keys : List String} (h : (keys.filter p).idxOf a < (keys.filter p).idxOf b) :
    keys.idxOf a < keys.idxOf b := by
  induction keys with
  | nil => exact h
  | cons key rest ih =>
      by_cases hkey : p key = true
      · rw [List.filter_cons_of_pos hkey] at h
        by_cases hab : key = b
        · rw [hab, List.idxOf_cons_self] at h
          exact absurd h (Nat.not_lt_zero _)
        · by_cases haa : key = a
          · rw [haa, List.idxOf_cons_self, List.idxOf_cons_ne _ (haa ▸ hab)]
            exact Nat.succ_pos _
          · rw [List.idxOf_cons_ne _ haa, List.idxOf_cons_ne _ hab] at h ⊢
            exact Nat.succ_lt_succ (ih (Nat.lt_of_succ_lt_succ h))
      · rw [List.filter_cons_of_neg hkey] at h
        have hka : key ≠ a := fun heq => hkey (heq ▸ ha)
        have hkb : key ≠ b := fun heq => hkey (heq ▸ hb)
        rw [List.idxOf_cons_ne _ hka, List.idxOf_cons_ne _ hkb]
        exact Nat.succ_lt_succ (ih h)

theorem pairwise_idxOf_eraseDups (keys : List String) :
    keys.eraseDups.Pairwise fun a b => keys.idxOf a < keys.idxOf b := by
  cases keys with
  | nil => exact List.Pairwise.nil
  | cons key rest =>
      have hother : ∀ other ∈ (rest.filter fun k => !k == key).eraseDups, key ≠ other := by
        intro other hin heq
        rw [List.mem_eraseDups, List.mem_filter] at hin
        simp [heq] at hin
      rw [List.eraseDups_cons, List.pairwise_cons]
      refine ⟨fun other hin => ?_, ?_⟩
      · rw [List.idxOf_cons_self, List.idxOf_cons_ne _ (hother other hin)]
        exact Nat.succ_pos _
      · refine (pairwise_idxOf_eraseDups (rest.filter fun k => !k == key)).imp_of_mem ?_
        intro a b ha hb hlt
        have hka := hother a ha
        have hkb := hother b hb
        rw [List.idxOf_cons_ne _ hka, List.idxOf_cons_ne _ hkb]
        exact Nat.succ_lt_succ
          (idxOf_lt_of_filter (by simpa using hka.symm) (by simpa using hkb.symm) hlt)
termination_by keys.length
decreasing_by
  have h := List.length_filter_le (fun k => !k == key) rest
  rw [List.length_cons]
  omega

theorem inFirstOrder_eraseDups (keys : List String) : InFirstOrder keys keys.eraseDups :=
  ⟨fun _ => List.mem_eraseDups, pairwise_idxOf_eraseDups keys⟩

/-- Schemas are found under their own keys. -/
def Lookup.OwnKeys (look : Lookup) : Prop :=
  ∀ key schema, look.require key = .ok schema → schema.key = key

/-- The schema found under a key refers to another key. -/
def Lookup.Refers (look : Lookup) (parent child : String) : Prop :=
  ∃ schema, look.require parent = .ok schema ∧ child ∈ schema.references.map Prod.snd

namespace Relations

/-! ## What a schema refers to -/

section Targets

variable {look : Lookup} {schema : Schema}

/-- The related schemas are found, and they have the keys referred to, in the order of first
reference. -/
theorem targets_eq_ok (hown : look.OwnKeys) {related : List Schema}
    (h : targets look schema = .ok related) :
    related.map Schema.key = (schema.references.map Prod.snd).eraseDups ∧
      ∀ member ∈ related, look.require member.key = .ok member := by
  obtain ⟨pairs, hkeys, rfl, hpairs⟩ := mapM_eq_ok_iff.1 h
  have hkey : ∀ pair ∈ pairs, pair.2.key = pair.1 :=
    fun pair hpair => hown pair.1 pair.2 (hpairs pair hpair)
  refine ⟨?_, fun member hmember => ?_⟩
  · rw [hkeys, List.map_map]
    exact List.map_congr_left hkey
  · obtain ⟨pair, hpair, rfl⟩ := List.mem_map.1 hmember
    rw [hkey pair hpair]
    exact hpairs pair hpair

/-- Every key that a schema refers to is the key of one of the related schemas. -/
theorem mem_references_iff (hown : look.OwnKeys) {related : List Schema}
    (h : targets look schema = .ok related) (key : String) :
    key ∈ schema.references.map Prod.snd ↔ ∃ member ∈ related, member.key = key := by
  rw [← List.mem_eraseDups, ← (targets_eq_ok hown h).1, List.mem_map]

theorem eq_nil_iff_of_targets (hown : look.OwnKeys) {related : List Schema}
    (h : targets look schema = .ok related) :
    related = [] ↔ schema.references = [] := by
  have hkeys := mem_references_iff hown h
  constructor
  · rintro rfl
    have hnone : schema.references.map Prod.snd = [] := by
      refine List.eq_nil_iff_forall_not_mem.2 fun key hkey => ?_
      obtain ⟨member, hmember, -⟩ := (hkeys key).1 hkey
      exact List.not_mem_nil hmember
    exact List.map_eq_nil_iff.1 hnone
  · intro hnil
    refine List.eq_nil_iff_forall_not_mem.2 fun member hmember => ?_
    have hkey := (hkeys member.key).2 ⟨member, hmember, rfl⟩
    rw [hnil] at hkey
    exact List.not_mem_nil hkey

theorem exists_of_targets_eq_error {e : CatalogError} (h : targets look schema = .error e) :
    ∃ key ∈ schema.references.map Prod.snd, look.require key = .error e := by
  obtain ⟨key, hkey, hfailed⟩ := exists_of_mapM_eq_error h
  exact ⟨key, List.mem_eraseDups.1 hkey, hfailed⟩

end Targets

/-! ## Work through a stack -/

/-- The relations after a schema was looked into; it has no group without related schemas. -/
def note (r : Relations) (schema : Schema) (related : List Schema) : Relations where
  expanded := schema.key :: r.expanded
  groups := if related.isEmpty then r.groups else Keyed.insert r.groups schema.key related

/-- Work through a stack of schemas, turn by turn, up to its result. The related schemas of
the first one come in front of the others, so that a schema may lie on the stack repeatedly. -/
inductive Works (look : Lookup) : Relations → List Schema → Except CatalogError Relations → Prop
  | done (r : Relations) : Works look r [] (.ok r)
  | skip {r : Relations} {schema : Schema} {rest : List Schema}
      {result : Except CatalogError Relations} (hold : schema.key ∈ r.expanded)
      (hrest : Works look r rest result) : Works look r (schema :: rest) result
  | fail {r : Relations} {schema : Schema} {rest : List Schema} {e : CatalogError}
      (hnew : schema.key ∉ r.expanded) (hfailed : targets look schema = .error e) :
      Works look r (schema :: rest) (.error e)
  | enter {r : Relations} {schema : Schema} {rest related : List Schema}
      {result : Except CatalogError Relations} (hnew : schema.key ∉ r.expanded)
      (hrelated : targets look schema = .ok related)
      (hrest : Works look (r.note schema related) (related ++ rest) result) :
      Works look r (schema :: rest) result

/-- Work that has begun at a root and has a stack before it. Where a schema was looked into,
its related schemas were so too or lie on the stack. -/
structure Underway (look : Lookup) (root : String) (r : Relations) (stack : List Schema) :
    Prop where
  started : root ∈ r.expanded ∨ ∃ schema ∈ stack, schema.key = root
  pending : ∀ schema ∈ stack,
    look.require schema.key = .ok schema ∧ ReflTransGen look.Refers root schema.key
  looked_into : ∀ key ∈ r.expanded, ReflTransGen look.Refers root key ∧
    ∃ schema related, look.require key = .ok schema ∧ targets look schema = .ok related ∧
      (∀ member ∈ related, member.key ∈ r.expanded ∨ member ∈ stack) ∧
      Keyed.get? r.groups key = if related = [] then none else some related
  grouped : ∀ key ∈ Keyed.keys r.groups, key ∈ r.expanded
  sorted : Keyed.Sorted r.groups

section Work

variable {look : Lookup} {root : String} {r : Relations} {schema : Schema} {rest : List Schema}

theorem get?_note_of_ne {related : List Schema} {key : String} (hne : key ≠ schema.key) :
    Keyed.get? (r.note schema related).groups key = Keyed.get? r.groups key := by
  cases related with
  | nil => rfl
  | cons first others => exact Keyed.get?_insert_of_ne _ _ hne

theorem get?_note_self {related : List Schema} (hnew : Keyed.get? r.groups schema.key = none) :
    Keyed.get? (r.note schema related).groups schema.key =
      if related = [] then none else some related := by
  cases related with
  | nil => exact hnew
  | cons first others => exact Keyed.get?_insert_self _ _ _

theorem underway_start (hroot : look.require root = .ok schema) (hkey : schema.key = root) :
    Underway look root ⟨[], []⟩ [schema] where
  started := Or.inr ⟨schema, List.mem_singleton.2 rfl, hkey⟩
  pending := by
    intro first hfirst
    rw [List.mem_singleton.1 hfirst, hkey]
    exact ⟨hroot, .refl⟩
  looked_into := fun key hkey => absurd hkey List.not_mem_nil
  grouped := fun key hkey => absurd hkey List.not_mem_nil
  sorted := Keyed.sorted_nil

theorem Underway.skip (h : Underway look root r (schema :: rest))
    (hold : schema.key ∈ r.expanded) : Underway look root r rest where
  started := by
    rcases h.started with hin | ⟨first, hfirst, rfl⟩
    · exact Or.inl hin
    · rcases List.mem_cons.1 hfirst with rfl | hfirst
      · exact Or.inl hold
      · exact Or.inr ⟨first, hfirst, rfl⟩
  pending := fun other hother => h.pending other (List.mem_cons_of_mem schema hother)
  looked_into := by
    intro key hkey
    obtain ⟨hway, found, related, hfound, hrelated, hclosed, hgroup⟩ := h.looked_into key hkey
    refine ⟨hway, found, related, hfound, hrelated, fun member hmember => ?_, hgroup⟩
    rcases hclosed member hmember with hin | hin
    · exact Or.inl hin
    · rcases List.mem_cons.1 hin with rfl | hin
      · exact Or.inl hold
      · exact Or.inr hin
  grouped := h.grouped
  sorted := h.sorted

theorem Underway.enter (hown : look.OwnKeys)
    (h : Underway look root r (schema :: rest)) (hnew : schema.key ∉ r.expanded)
    {related : List Schema} (hrelated : targets look schema = .ok related) :
    Underway look root (r.note schema related) (related ++ rest) where
  started := by
    rcases h.started with hin | ⟨first, hfirst, rfl⟩
    · exact Or.inl (List.mem_cons_of_mem _ hin)
    · rcases List.mem_cons.1 hfirst with rfl | hfirst
      · exact Or.inl List.mem_cons_self
      · exact Or.inr ⟨first, List.mem_append_right _ hfirst, rfl⟩
  pending := by
    intro other hother
    rcases List.mem_append.1 hother with hother | hother
    · obtain ⟨hfound, hway⟩ := h.pending schema List.mem_cons_self
      have hrefers : look.Refers schema.key other.key :=
        ⟨schema, hfound, (mem_references_iff hown hrelated _).2 ⟨other, hother, rfl⟩⟩
      exact ⟨(targets_eq_ok hown hrelated).2 other hother, hway.tail hrefers⟩
    · exact h.pending other (List.mem_cons_of_mem schema hother)
  looked_into := by
    intro key hkey
    rcases List.mem_cons.1 hkey with rfl | hkey
    · -- the schema itself: its related schemas lie on the stack now
      obtain ⟨hfound, hway⟩ := h.pending schema List.mem_cons_self
      have hnone : Keyed.get? r.groups schema.key = none :=
        Keyed.get?_eq_none_iff.2 fun hin => hnew (h.grouped schema.key hin)
      exact ⟨hway, schema, related, hfound, hrelated,
        fun member hmember => Or.inr (List.mem_append_left rest hmember), get?_note_self hnone⟩
    · -- one that was looked into before: if it waited for this schema, it does so no longer
      obtain ⟨hway, found, others, hfound, hothers, hclosed, hgroup⟩ := h.looked_into key hkey
      have hne : key ≠ schema.key := fun heq => hnew (heq ▸ hkey)
      refine ⟨hway, found, others, hfound, hothers, fun member hmember => ?_, ?_⟩
      · rcases hclosed member hmember with hin | hin
        · exact Or.inl (List.mem_cons_of_mem _ hin)
        · rcases List.mem_cons.1 hin with rfl | hin
          · exact Or.inl List.mem_cons_self
          · exact Or.inr (List.mem_append_right related hin)
      · rw [get?_note_of_ne hne, hgroup]
  grouped := by
    intro key hkey
    cases related with
    | nil => exact List.mem_cons_of_mem _ (h.grouped key hkey)
    | cons first others =>
        rcases (Keyed.mem_keys_insert r.groups schema.key key _).1 hkey with rfl | hkey
        · exact List.mem_cons_self
        · exact List.mem_cons_of_mem _ (h.grouped key hkey)
  sorted := by
    cases related with
    | nil => exact h.sorted
    | cons first others => exact Keyed.sorted_insert h.sorted schema.key _

/-- Work ends with an empty stack, or at a reachable schema with a target that is not found. -/
theorem Works.ends (hown : look.OwnKeys)
    {stack : List Schema} {result : Except CatalogError Relations}
    (h : Works look r stack result) (hunder : Underway look root r stack) :
    (∃ t, result = .ok t ∧ Underway look root t []) ∨
      ∃ e parent child, result = .error e ∧ ReflTransGen look.Refers root parent ∧
        look.Refers parent child ∧ look.require child = .error e := by
  induction h with
  | done r => exact Or.inl ⟨r, rfl, hunder⟩
  | skip hold _ ih => exact ih (hunder.skip hold)
  | @fail r schema rest e hnew hfailed =>
      obtain ⟨hfound, hway⟩ := hunder.pending schema List.mem_cons_self
      obtain ⟨child, hchild, hmissing⟩ := exists_of_targets_eq_error hfailed
      exact Or.inr ⟨e, schema.key, child, rfl, hway, ⟨schema, hfound, hchild⟩, hmissing⟩
  | enter hnew hrelated _ ih => exact ih (hunder.enter hown hnew hrelated)

/-- The work through a stack has one result. -/
theorem Works.unique {stack : List Schema} {result result' : Except CatalogError Relations}
    (h : Works look r stack result) (h' : Works look r stack result') : result = result' := by
  induction h generalizing result' with
  | done r =>
      cases h'
      rfl
  | skip hold _ ih =>
      cases h' with
      | skip _ hrest => exact ih hrest
      | fail hnew _ => exact absurd hold hnew
      | enter hnew _ _ => exact absurd hold hnew
  | fail hnew hfailed =>
      cases h' with
      | skip hold _ => exact absurd hold hnew
      | fail _ hfailed' => exact congrArg _ (Except.error.inj (hfailed.symm.trans hfailed'))
      | enter _ hrelated _ => cases hfailed.symm.trans hrelated
  | enter hnew hrelated _ ih =>
      cases h' with
      | skip hold _ => exact absurd hold hnew
      | fail _ hfailed => cases hrelated.symm.trans hfailed
      | enter _ hrelated' hrest =>
          cases hrelated.symm.trans hrelated'
          exact ih hrest

/-- At the end everything that the root leads to was looked into. -/
theorem Underway.mem_expanded_iff (hown : look.OwnKeys)
    (h : Underway look root r []) (key : String) :
    key ∈ r.expanded ↔ ReflTransGen look.Refers root key := by
  constructor
  · exact fun hkey => (h.looked_into key hkey).1
  · intro hway
    induction hway with
    | refl =>
        rcases h.started with hin | ⟨first, hfirst, -⟩
        · exact hin
        · exact absurd hfirst List.not_mem_nil
    | @tail parent child _ hrefers ih =>
        obtain ⟨-, found, related, hfound, hrelated, hclosed, -⟩ := h.looked_into parent ih
        obtain ⟨schema, hschema, hchild⟩ := hrefers
        obtain rfl := Except.ok.inj (hfound.symm.trans hschema)
        obtain ⟨member, hmember, rfl⟩ := (mem_references_iff hown hrelated child).1 hchild
        exact (hclosed member hmember).resolve_right List.not_mem_nil

/-- A group is made of the schemas that its schema refers to. -/
theorem Underway.of_get?_groups {stack : List Schema} (h : Underway look root r stack) {key : String}
    {group : List Schema} (hgroup : Keyed.get? r.groups key = some group) :
    ReflTransGen look.Refers root key ∧
      ∃ found, look.require key = .ok found ∧ targets look found = .ok group ∧ group ≠ [] := by
  have hkey : key ∈ Keyed.keys r.groups := by
    by_contra hnot
    rw [Keyed.get?_eq_none_iff.2 hnot] at hgroup
    cases hgroup
  obtain ⟨hway, found, related, hfound, hrelated, -, hget⟩ := h.looked_into key (h.grouped key hkey)
  rw [hgroup] at hget
  split at hget
  · cases hget
  · rename_i hne
    obtain rfl := Option.some.inj hget
    exact ⟨hway, found, hfound, hrelated, hne⟩

/-- At the end there is a group for each reachable schema that refers to others. -/
theorem Underway.mem_keys_groups_iff (hown : look.OwnKeys)
    (h : Underway look root r []) (key : String) :
    key ∈ Keyed.keys r.groups ↔ ReflTransGen look.Refers root key ∧
      ∃ found, look.require key = .ok found ∧ found.references ≠ [] := by
  rw [Keyed.mem_keys_iff_hasKey, Keyed.hasKey, Option.isSome_iff_exists]
  constructor
  · rintro ⟨group, hgroup⟩
    obtain ⟨hway, found, hfound, hrelated, hne⟩ := h.of_get?_groups hgroup
    exact ⟨hway, found, hfound, fun hnil => hne ((eq_nil_iff_of_targets hown hrelated).2 hnil)⟩
  · rintro ⟨hway, schema, hschema, hrefers⟩
    obtain ⟨-, found, related, hfound, hrelated, -, hget⟩ :=
      h.looked_into key ((h.mem_expanded_iff hown key).2 hway)
    obtain rfl := Except.ok.inj (hfound.symm.trans hschema)
    have hne : related ≠ [] := fun hnil => hrefers ((eq_nil_iff_of_targets hown hrelated).1 hnil)
    rw [if_neg hne] at hget
    exact ⟨related, hget⟩

end Work

/-! ## The bound of the search -/

section Bound

variable {look : Lookup}

/-- How work goes on after a part of the stack. -/
def GoesOn (look : Lookup) (part : Except CatalogError Relations) (rest : List Schema)
    (result : Except CatalogError Relations) : Prop :=
  match part with
  | .ok t => Works look t rest result
  | .error e => result = .error e

/-- A part that is followed by another one goes on with it. -/
theorem GoesOn.of_bind {first : Except CatalogError Relations}
    {next : Relations → Except CatalogError Relations} {rest behind : List Schema}
    {result : Except CatalogError Relations} (h : GoesOn look (first >>= next) rest result)
    (hnext : ∀ t, first = .ok t → GoesOn look (next t) rest result →
      Works look t behind result) : GoesOn look first behind result := by
  cases first with
  | error e => exact h
  | ok t => exact hnext t rfl h

theorem expand_of_old {bound : Nat} {r : Relations} {schema : Schema}
    (hold : schema.key ∈ r.expanded) : expand look bound r schema = .ok r := by
  cases bound with
  | zero => rfl
  | succ bound => rw [expand, if_pos hold]

theorem expand_of_new {bound : Nat} {r : Relations} {schema : Schema}
    (hnew : schema.key ∉ r.expanded) :
    expand look (bound + 1) r schema = targets look schema >>= fun related =>
      related.foldlM (expand look bound) (r.note schema related) := by
  rw [expand, if_neg hnew]
  congr 1
  funext related
  cases related with
  | nil => rfl
  | cons first others => rfl

/-- What was looked into stays so. -/
theorem expanded_subset_foldlM (bound : Nat) {r t : Relations} {stack : List Schema}
    (h : stack.foldlM (expand look bound) r = .ok t) : r.expanded ⊆ t.expanded := by
  induction bound generalizing r t stack with
  | zero =>
      induction stack with
      | nil =>
          cases h
          exact List.Subset.refl _
      | cons schema rest ih => exact ih h
  | succ bound ihbound =>
      induction stack generalizing r with
      | nil =>
          cases h
          exact List.Subset.refl _
      | cons schema rest ih =>
          rw [List.foldlM_cons] at h
          obtain ⟨mid, hmid, hrest⟩ := bind_eq_ok_iff.1 h
          refine List.Subset.trans ?_ (ih hrest)
          by_cases hold : schema.key ∈ r.expanded
          · rw [expand_of_old hold] at hmid
            cases hmid
            exact List.Subset.refl _
          · rw [expand_of_new hold] at hmid
            obtain ⟨related, -, hbehind⟩ := bind_eq_ok_iff.1 hmid
            exact fun key hkey => ihbound hbehind (List.mem_cons_of_mem schema.key hkey)

/-- The search goes down by at most as many schemas as there are keys to be found: those on
the way are distinct, and where the bound is used up the way already holds every key. -/
theorem works_expand {space : List String}
    (hspace : ∀ key found, look.require key = .ok found → found.key ∈ space)
    (hown : look.OwnKeys) (bound : Nat)
    {r : Relations} {way : List String} {stack rest : List Schema}
    {result : Except CatalogError Relations} (hnodup : way.Nodup) (hway : way ⊆ r.expanded)
    (hwithin : way ⊆ space) (hstack : ∀ schema ∈ stack, schema.key ∈ space)
    (hbound : space.length ≤ bound + way.length)
    (h : GoesOn look (stack.foldlM (expand look bound) r) rest result) :
    Works look r (stack ++ rest) result := by
  induction bound generalizing r way stack rest with
  | zero =>
      have hperm : way.Perm space := (hnodup.subperm hwithin).perm_of_length_le (by omega)
      induction stack with
      | nil => exact h
      | cons schema others ih =>
          obtain ⟨hkey, hothers⟩ := List.forall_mem_cons.1 hstack
          exact .skip (hway (hperm.mem_iff.2 hkey)) (ih hothers h)
  | succ bound ihbound =>
      induction stack generalizing r with
      | nil => exact h
      | cons schema others ih =>
          obtain ⟨hkey, hothers⟩ := List.forall_mem_cons.1 hstack
          rw [List.foldlM_cons] at h
          by_cases hold : schema.key ∈ r.expanded
          · rw [expand_of_old hold] at h
            exact .skip hold (ih hway hothers h)
          · rw [expand_of_new hold] at h
            cases hrelated : targets look schema with
            | error e =>
                rw [hrelated] at h
                cases h
                exact .fail hold hrelated
            | ok related =>
                rw [hrelated] at h
                -- the schema joins the way, which makes up for the smaller bound
                have hlonger : (schema.key :: way).Nodup :=
                  List.nodup_cons.2 ⟨fun hin => hold (hway hin), hnodup⟩
                have hopen : schema.key :: way ⊆ (r.note schema related).expanded :=
                  List.cons_subset_cons _ hway
                refine .enter hold hrelated (ihbound hlonger hopen
                  (List.cons_subset.2 ⟨hkey, hwithin⟩) (fun member hmember => ?_)
                  (by rw [List.length_cons]; omega) ?_)
                · exact hspace _ _ ((targets_eq_ok hown hrelated).2 member hmember)
                · refine h.of_bind fun t hbehind hafter => ih (fun k hk => ?_) hothers hafter
                  exact expanded_subset_foldlM bound hbehind
                    (hopen (List.mem_cons_of_mem schema.key hk))

end Bound

end Relations

end SchemaCatalog
