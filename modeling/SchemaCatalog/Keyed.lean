/-!
# Entries in key order

A finite map from texts is a list of entries in increasing order of their keys, the
order of code points. `insert` puts an entry in its place and replaces one with the
same key; its two laws for `get?` say what is found afterwards, and `sorted_insert`
that the order is kept.
-/

set_option autoImplicit false

namespace SchemaCatalog.Keyed

universe u

variable {α : Type u}

/-- The value of the first entry with the key. -/
def get? (entries : List (String × α)) (key : String) : Option α :=
  match entries with
  | [] => none
  | (k, a) :: rest => if k = key then some a else get? rest key

/-- The entries with one more, or with the value of an old one replaced. -/
def insert (entries : List (String × α)) (key : String) (a : α) : List (String × α) :=
  match entries with
  | [] => [(key, a)]
  | (k, b) :: rest =>
      if k = key then (key, a) :: rest
      else if key < k then (key, a) :: (k, b) :: rest
      else (k, b) :: insert rest key a

/-- The entries of a list in key order; of two with one key the later stays. -/
def ofList (entries : List (String × α)) : List (String × α) :=
  entries.foldl (fun m e => insert m e.1 e.2) []

/-- The keys, in the order of the entries. -/
def keys (entries : List (String × α)) : List String := entries.map Prod.fst

/-- Whether some entry has the key. -/
def hasKey (entries : List (String × α)) (key : String) : Bool := (get? entries key).isSome

/-- The keys increase strictly. -/
def Sorted (entries : List (String × α)) : Prop :=
  entries.Pairwise fun a b => a.1 < b.1

theorem get?_insert_self (m : List (String × α)) (key : String) (a : α) :
    get? (insert m key a) key = some a := by
  induction m with
  | nil => simp [insert, get?]
  | cons e rest ih =>
    obtain ⟨k, b⟩ := e
    simp only [insert]
    split
    · simp [get?]
    · split
      · simp [get?]
      · rename_i hne _
        simp [get?, hne, ih]

theorem get?_insert_of_ne (m : List (String × α)) {key other : String} (a : α)
    (h : other ≠ key) : get? (insert m key a) other = get? m other := by
  induction m with
  | nil => simp [insert, get?, Ne.symm h]
  | cons e rest ih =>
    obtain ⟨k, b⟩ := e
    simp only [insert]
    split
    · rename_i hk
      subst hk
      simp [get?, Ne.symm h]
    · split
      · simp [get?, Ne.symm h]
      · simp [get?, ih]

theorem get?_insert (m : List (String × α)) (key other : String) (a : α) :
    get? (insert m key a) other = if other = key then some a else get? m other := by
  by_cases h : other = key
  · subst h
    simp [get?_insert_self]
  · simp [h, get?_insert_of_ne m a h]

theorem mem_keys_insert (m : List (String × α)) (key other : String) (a : α) :
    other ∈ keys (insert m key a) ↔ other = key ∨ other ∈ keys m := by
  induction m with
  | nil => simp [insert, keys]
  | cons e rest ih =>
    obtain ⟨k, b⟩ := e
    simp only [insert]
    split
    · rename_i hk
      subst hk
      simp [keys]
    · split
      · simp [keys]
      · simp only [keys, List.map_cons, List.mem_cons] at ih ⊢
        rw [ih]
        constructor
        · rintro (h | h | h) <;> simp [h]
        · rintro (h | h | h) <;> simp [h]

theorem mem_keys_iff_hasKey (m : List (String × α)) (key : String) :
    key ∈ keys m ↔ hasKey m key = true := by
  induction m with
  | nil => simp [keys, hasKey, get?]
  | cons e rest ih =>
    obtain ⟨k, b⟩ := e
    simp only [keys, hasKey, get?, List.map_cons, List.mem_cons] at ih ⊢
    by_cases h : k = key
    · simp [h]
    · simp [h, ih, Ne.symm h]

theorem sorted_nil : Sorted ([] : List (String × α)) := List.Pairwise.nil

theorem sorted_insert {m : List (String × α)} (h : Sorted m) (key : String) (a : α) :
    Sorted (insert m key a) := by
  induction m with
  | nil => simp [insert, Sorted]
  | cons e rest ih =>
    obtain ⟨k, b⟩ := e
    have hrest : Sorted rest := (List.pairwise_cons.1 h).2
    have hlt : ∀ e ∈ rest, k < e.1 := (List.pairwise_cons.1 h).1
    simp only [insert]
    split
    · rename_i hk
      subst hk
      exact List.pairwise_cons.2 ⟨hlt, hrest⟩
    · rename_i hne
      split
      · rename_i hkey
        refine List.pairwise_cons.2 ⟨fun e he => ?_, h⟩
        rcases List.mem_cons.1 he with rfl | he
        · exact hkey
        · exact String.lt_trans hkey (hlt e he)
      · rename_i hkey
        have hk : k < key := Std.lt_of_le_of_ne (String.not_lt.1 hkey) hne
        refine List.pairwise_cons.2 ⟨fun e he => ?_, ih hrest⟩
        have : e.1 ∈ keys (insert rest key a) := List.mem_map.2 ⟨e, he, rfl⟩
        rcases (mem_keys_insert rest key e.1 a).1 this with h | h
        · simpa [h] using hk
        · obtain ⟨e', he', heq⟩ := List.mem_map.1 h
          exact heq ▸ hlt e' he'

theorem sorted_ofList (entries : List (String × α)) : Sorted (ofList entries) := by
  suffices ∀ m : List (String × α), Sorted m →
      Sorted (entries.foldl (fun m e => insert m e.1 e.2) m) from this [] sorted_nil
  induction entries with
  | nil => exact fun m h => h
  | cons e rest ih => exact fun m h => ih _ (sorted_insert h e.1 e.2)

theorem insert_of_lt (m : List (String × α)) (key : String) (a : α)
    (h : ∀ e ∈ m, e.1 < key) : insert m key a = m ++ [(key, a)] := by
  induction m with
  | nil => rfl
  | cons e rest ih =>
    obtain ⟨k, b⟩ := e
    have hk : k < key := h (k, b) (by simp)
    have hne : ¬ k = key := fun heq => String.lt_irrefl key (heq ▸ hk)
    have hlt : ¬ key < k := fun hlt => String.lt_irrefl k (String.lt_trans hk hlt)
    simp [insert, hne, hlt, ih fun e he => h e (by simp [he])]

/-- Entries that are in order already stay as they are. -/
theorem ofList_of_sorted {entries : List (String × α)} (h : Sorted entries) :
    ofList entries = entries := by
  suffices ∀ m : List (String × α), Sorted (m ++ entries) →
      entries.foldl (fun m e => insert m e.1 e.2) m = m ++ entries from this [] h
  clear h
  induction entries with
  | nil => simp
  | cons e rest ih =>
    intro m hm
    have hlt : ∀ e' ∈ m, e'.1 < e.1 := fun e' he' =>
      (List.pairwise_append.1 hm).2.2 e' he' e (by simp)
    have hstep : insert m e.1 e.2 = m ++ [e] := insert_of_lt m e.1 e.2 hlt
    simp only [List.foldl_cons, hstep]
    rw [ih (m ++ [e]) (by simpa using hm)]
    simp

end SchemaCatalog.Keyed
