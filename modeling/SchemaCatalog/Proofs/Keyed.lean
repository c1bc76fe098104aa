import Mathlib.Data.List.Nodup
import SchemaCatalog.Keyed

/-!
# Entries and their keys

What is found in entries that were put in order is what was found before, if no key occurs
twice (`get?_ofList`), and entries in order are the same when the same is found in them under
every key (`Sorted.ext`).
-/

set_option autoImplicit false

namespace SchemaCatalog.Keyed

universe u

variable {α β : Type u}

theorem mem_keys_foldl_insert_iff (entries m : List (String × α)) (key : String) :
    key ∈ keys (entries.foldl (fun m e => insert m e.1 e.2) m) ↔
      key ∈ keys entries ∨ key ∈ keys m := by
  induction entries generalizing m with
  | nil => simp [keys]
  | cons e rest ih =>
      have hcons : key ∈ keys (e :: rest) ↔ key = e.1 ∨ key ∈ keys rest := List.mem_cons
      rw [List.foldl_cons, ih, mem_keys_insert, hcons]
      tauto

/-- Putting entries in order keeps their keys. -/
theorem mem_keys_ofList_iff (entries : List (String × α)) (key : String) :
    key ∈ keys (ofList entries) ↔ key ∈ keys entries := by
  rw [ofList, mem_keys_foldl_insert_iff]
  simp [keys]

theorem mem_of_mem_insert {m : List (String × α)} {key : String} {a : α} {e : String × α}
    (h : e ∈ insert m key a) : e = (key, a) ∨ e ∈ m := by
  induction m with
  | nil => exact Or.inl (List.mem_singleton.1 h)
  | cons first rest ih =>
      obtain ⟨k, b⟩ := first
      rw [insert] at h
      split at h
      · rcases List.mem_cons.1 h with h | h
        · exact Or.inl h
        · exact Or.inr (List.mem_cons_of_mem _ h)
      · split at h
        · exact List.mem_cons.1 h
        · rcases List.mem_cons.1 h with rfl | h
          · exact Or.inr List.mem_cons_self
          · exact (ih h).imp_right (List.mem_cons_of_mem _)

/-- Putting entries in order adds none. -/
theorem mem_of_mem_ofList {entries : List (String × α)} {e : String × α} (h : e ∈ ofList entries) :
    e ∈ entries := by
  have hfold : ∀ m : List (String × α),
      e ∈ entries.foldl (fun m e => insert m e.1 e.2) m → e ∈ entries ∨ e ∈ m := by
    clear h
    induction entries with
    | nil => exact fun m hm => Or.inr hm
    | cons first rest ih =>
        intro m hm
        rcases ih _ hm with hrest | hinsert
        · exact Or.inl (List.mem_cons_of_mem first hrest)
        · rcases mem_of_mem_insert hinsert with rfl | hm
          · exact Or.inl List.mem_cons_self
          · exact Or.inr hm
  rcases hfold [] h with he | hnil
  · exact he
  · cases hnil

theorem mem_of_get?_eq_some {m : List (String × α)} {key : String} {a : α}
    (h : get? m key = some a) : (key, a) ∈ m := by
  induction m with
  | nil => cases h
  | cons first rest ih =>
      obtain ⟨k, b⟩ := first
      rw [get?] at h
      split at h
      · rename_i hk
        cases h
        rw [hk]
        exact List.mem_cons_self
      · exact List.mem_cons_of_mem _ (ih h)

/-- Behind an entry no other one has its key. -/
theorem Sorted.get?_rest {k : String} {b : α} {rest : List (String × α)}
    (h : Sorted ((k, b) :: rest)) : get? rest k = none := by
  cases hget : get? rest k with
  | none => rfl
  | some a =>
      have hlt := (List.pairwise_cons.1 h).1 (k, a) (mem_of_get?_eq_some hget)
      exact absurd hlt (String.lt_irrefl k)

theorem get?_eq_some_of_mem {m : List (String × α)} (hkeys : (keys m).Nodup) {key : String} {a : α}
    (h : (key, a) ∈ m) : get? m key = some a := by
  induction m with
  | nil => cases h
  | cons first rest ih =>
      obtain ⟨k, b⟩ := first
      obtain ⟨hfirst, hrest⟩ := List.nodup_cons.1 hkeys
      rw [get?]
      rcases List.mem_cons.1 h with heq | hmem
      · cases heq
        rw [if_pos rfl]
      · have hne : k ≠ key := by
          rintro rfl
          exact hfirst (List.mem_map.2 ⟨(k, a), hmem, rfl⟩)
        rw [if_neg hne, ih hrest hmem]

theorem get?_eq_none_iff {m : List (String × α)} {key : String} :
    get? m key = none ↔ key ∉ keys m := by
  rw [mem_keys_iff_hasKey, hasKey, Bool.not_eq_true, Option.isSome_eq_false_iff, Option.isNone_iff_eq_none]

theorem get?_map (f : α → β) (m : List (String × α)) (key : String) :
    get? (m.map fun e => (e.1, f e.2)) key = (get? m key).map f := by
  induction m with
  | nil => rfl
  | cons first rest ih =>
      rw [List.map_cons, get?, get?, ih]
      split
      · rfl
      · rfl

theorem get?_foldl_insert (entries m : List (String × α)) (hkeys : (keys entries).Nodup)
    (key : String) :
    get? (entries.foldl (fun m e => insert m e.1 e.2) m) key =
      (get? entries key).or (get? m key) := by
  induction entries generalizing m with
  | nil => rfl
  | cons first rest ih =>
      obtain ⟨k, b⟩ := first
      obtain ⟨hfirst, hrest⟩ := List.nodup_cons.1 hkeys
      rw [List.foldl_cons, ih _ hrest, get?_insert, get?]
      by_cases hk : k = key
      · have hnone : get? rest key = none := get?_eq_none_iff.2 (hk ▸ hfirst)
        rw [if_pos hk, if_pos hk.symm, hnone]
        rfl
      · rw [if_neg hk, if_neg (Ne.symm hk)]

/-- Putting entries with distinct keys in order changes nothing that is found. -/
theorem get?_ofList {entries : List (String × α)} (hkeys : (keys entries).Nodup) (key : String) :
    get? (ofList entries) key = get? entries key := by
  rw [ofList, get?_foldl_insert entries [] hkeys]
  exact Option.or_none

theorem Sorted.nodup_keys {m : List (String × α)} (h : Sorted m) : (keys m).Nodup := by
  refine List.pairwise_map.2 (h.imp ?_)
  intro a b hlt heq
  exact String.lt_irrefl a.1 (heq ▸ hlt)

theorem Sorted.get?_of_lt {k key : String} {b : α} {rest : List (String × α)}
    (h : Sorted ((k, b) :: rest)) (hlt : key < k) : get? ((k, b) :: rest) key = none := by
  cases hget : get? ((k, b) :: rest) key with
  | none => rfl
  | some a =>
      rcases List.mem_cons.1 (mem_of_get?_eq_some hget) with heq | hmem
      · rw [(Prod.mk.inj heq).1] at hlt
        exact absurd hlt (String.lt_irrefl k)
      · have hbehind : k < key := (List.pairwise_cons.1 h).1 (key, a) hmem
        exact absurd (String.lt_trans hlt hbehind) (String.lt_irrefl key)

/-- Entries in order are determined by what is found in them. -/
theorem Sorted.ext {m m' : List (String × α)} (h : Sorted m) (h' : Sorted m')
    (hget : ∀ key, get? m key = get? m' key) : m = m' := by
  induction m generalizing m' with
  | nil =>
      cases m' with
      | nil => rfl
      | cons first' rest' =>
          obtain ⟨k', b'⟩ := first'
          have hfound : none = get? ((k', b') :: rest') k' := hget k'
          rw [get?, if_pos rfl] at hfound
          cases hfound
  | cons first rest ih =>
      obtain ⟨k, b⟩ := first
      have hfound : get? m' k = some b := by
        rw [← hget k, get?, if_pos rfl]
      cases m' with
      | nil => cases hfound
      | cons first' rest' =>
          obtain ⟨k', b'⟩ := first'
          -- of two first keys that differ, the lesser one is found on one side only
          have hk : k = k' := by
            by_contra hne
            by_cases hlt : k < k'
            · rw [h'.get?_of_lt hlt] at hfound
              cases hfound
            · have hgt : k' < k := Std.lt_of_le_of_ne (String.not_lt.1 hlt) (Ne.symm hne)
              have hnone := hget k'
              rw [h.get?_of_lt hgt, get?, if_pos rfl] at hnone
              cases hnone
          subst hk
          rw [get?, if_pos rfl, Option.some.injEq] at hfound
          subst hfound
          refine congrArg _ (ih (List.pairwise_cons.1 h).2 (List.pairwise_cons.1 h').2 ?_)
          intro key
          by_cases hkey : k = key
          · rw [← hkey, h.get?_rest, h'.get?_rest]
          · have hrest := hget key
            rwa [get?, get?, if_neg hkey, if_neg hkey] at hrest

/-- Putting in an entry that is there already changes nothing. -/
theorem Sorted.insert_of_get? {m : List (String × α)} (h : Sorted m) {key : String} {a : α}
    (hget : get? m key = some a) : insert m key a = m := by
  refine (sorted_insert h key a).ext h fun other => ?_
  rw [get?_insert]
  by_cases hother : other = key
  · rw [if_pos hother, hother, hget]
  · rw [if_neg hother]

end SchemaCatalog.Keyed
