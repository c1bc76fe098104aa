import SchemaCatalog.Codec.Decode
import SchemaCatalog.Proofs.Codec.Values

/-!
# Decoded records

A record is decoded exactly when each of its fields is and nothing else in it is at fault. A field
comes from one reading, or is missing and has its default (`Entries.field_eq_ok_iff`). In a whole
value nothing but its fields can be at fault (`Layout.close_ofFields`), and when their names are
distinct each depends only on what is found under its name (`WrittenFrom.field_eq`), not on their
order.
-/

set_option autoImplicit false

namespace SchemaCatalog.Decode

/-! ## Attempts -/

namespace Attempt

variable {α β : Type}

theorem map_eq_ok_iff {f : α → β} {a : Attempt α} {b : β} :
    f <$> a = (Except.ok b : Attempt β) ↔ ∃ x, a = (Except.ok x : Attempt α) ∧ f x = b := by
  cases a with
  | error e =>
      constructor
      · intro h
        cases h
      · rintro ⟨x, h, -⟩
        cases h
  | ok x =>
      constructor
      · intro h
        cases h
        exact ⟨x, rfl, rfl⟩
      · rintro ⟨y, h, rfl⟩
        cases h
        rfl

theorem seq_eq_ok_iff {f : Attempt (α → β)} {a : Attempt α} {b : β} :
    f <*> a = (Except.ok b : Attempt β) ↔
      ∃ g x, f = (Except.ok g : Attempt (α → β)) ∧ a = (Except.ok x : Attempt α) ∧ g x = b := by
  cases f with
  | error e =>
      constructor
      · -- the second attempt is made all the same, and of two errors the earlier one is kept
        intro h
        cases a with
        | error e' => cases h
        | ok x => cases h
      · rintro ⟨g, x, h, -, -⟩
        cases h
  | ok g =>
      cases a with
      | error e =>
          constructor
          · intro h
            cases h
          · rintro ⟨g', x, -, h, -⟩
            cases h
      | ok x =>
          constructor
          · intro h
            cases h
            exact ⟨g, x, rfl, rfl, rfl⟩
          · rintro ⟨g', x', hg, hx, rfl⟩
            cases hg
            cases hx
            rfl

end Attempt

/-! ## Fields of a record -/

namespace Entries

variable {α : Type} {e : Entries} {name : String} {read : Reading → Except DecodeError α}
  {default? : Option α} {a : α}

/-- A field is decoded from its only reading, or has its default if it has none. -/
theorem field_eq_ok_iff : e.field name read default? = (Except.ok a : Attempt α) ↔
    (occurrences e.layout name 0 e.met = [] ∧ default? = some a) ∨
      ∃ place r, occurrences e.layout name 0 e.met = [(place, r)] ∧ read r.attempted = .ok a := by
  unfold field
  rcases occurrences e.layout name 0 e.met with _ | ⟨⟨place, r⟩, _ | ⟨⟨again, r'⟩, more⟩⟩
  · -- nothing to decode
    cases default? with
    | none =>
        constructor
        · intro h
          cases h
        · rintro (⟨-, h⟩ | ⟨place, r, h, -⟩)
          · cases h
          · cases h
    | some d =>
        constructor
        · intro h
          cases h
          exact .inl ⟨rfl, rfl⟩
        · rintro (⟨-, h⟩ | ⟨place, r, h, -⟩)
          · cases h
            rfl
          · cases h
  · dsimp only
    constructor
    · intro h
      refine .inr ⟨place, r, rfl, ?_⟩
      cases hread : read r.attempted with
      | error err =>
          rw [hread] at h
          cases h
      | ok b =>
          rw [hread] at h
          cases h
          rfl
    · rintro (⟨h, -⟩ | ⟨place', r', h, hread⟩)
      · cases h
      · cases h
        rw [hread]
  · -- a second reading is an error, whether or not the first is decoded
    dsimp only
    constructor
    · intro h
      cases hread : read r.attempted with
      | error err =>
          rw [hread] at h
          cases h
      | ok b =>
          rw [hread] at h
          cases h
    · rintro (⟨h, -⟩ | ⟨place', r', h, -⟩)
      · cases h
      · cases h

/-- What holds of the default of a field and of all that its decoder gives holds of the field. -/
theorem of_field_eq_ok {P : α → Prop} (h : e.field name read default? = (Except.ok a : Attempt α))
    (hdefault : ∀ d, default? = some d → P d) (hread : ∀ r b, read r = .ok b → P b) : P a := by
  rcases field_eq_ok_iff.1 h with ⟨-, hmissing⟩ | ⟨place, r, -, hr⟩
  · exact hdefault a hmissing
  · exact hread r.attempted a hr

/-- A record is complete when its fields are and nothing beside them is at fault. -/
theorem close_eq_ok_iff {attempt : Attempt α} : e.close attempt = .ok a ↔
    attempt = (Except.ok a : Attempt α) ∧
      strayFault e.layout 0 e.met = (Except.ok () : Attempt Unit) ∧
      e.extraFault = (Except.ok () : Attempt Unit) := by
  have hall : e.close attempt = .ok a ↔
      (fun x _ _ => x) <$> attempt <*> strayFault e.layout 0 e.met <*> e.extraFault
        = (Except.ok a : Attempt α) := by
    rw [close]
    rcases (fun x _ _ => x) <$> attempt <*> strayFault e.layout 0 e.met <*> e.extraFault
      with ⟨place, err⟩ | x
    · constructor
      · intro h
        cases h
      · intro h
        cases h
    · constructor
      · intro h
        cases h
        rfl
      · intro h
        cases h
        rfl
  rw [hall]
  constructor
  · intro h
    obtain ⟨g, ⟨⟩, hg, hextra, rfl⟩ := Attempt.seq_eq_ok_iff.1 h
    obtain ⟨f, ⟨⟩, hf, hstray, rfl⟩ := Attempt.seq_eq_ok_iff.1 hg
    obtain ⟨x, hx, rfl⟩ := Attempt.map_eq_ok_iff.1 hf
    exact ⟨hx, hstray, hextra⟩
  · rintro ⟨hattempt, hstray, hextra⟩
    rw [hattempt, hstray, hextra]
    rfl

end Entries

/-! ## Objects of distinct names -/

namespace Layout

variable {α : Type} {l : Layout} {fields : List (String × Json)}

theorem strayFault_ofFields (l : Layout) (fields : List (String × Json)) (place : Nat) :
    Entries.strayFault l place (Reading.ofFields fields) = (Except.ok () : Attempt Unit) := by
  induction fields generalizing place with
  | nil => rfl
  | cons first rest ih =>
      rw [Reading.ofFields, Entries.strayFault, Reading.skipFault?_ofJson]
      by_cases hdeclared : l.canonical first.1 ∈ l.fields
      · exact (if_pos hdeclared).trans (ih (place + 1))
      · exact (if_neg hdeclared).trans (ih (place + 1))

/-- Each of some names stands for itself. -/
def Direct (l : Layout) (names : List String) : Prop := ∀ name ∈ names, l.canonical name = name

theorem Direct.of_aliases {names : List String} (haliases : l.aliases = []) : l.Direct names := by
  intro name _
  rw [canonical, haliases]
  rfl

/-- Names that stand for themselves are met just where they are found. -/
theorem occurrences_ofFields (hdirect : l.Direct (Keyed.keys fields))
    (hkeys : (Keyed.keys fields).Nodup) (name : String) (place : Nat) : ∃ place',
      Entries.occurrences l name place (Reading.ofFields fields) =
        ((Keyed.get? fields name).map fun v => (place', Reading.ofJson v)).toList := by
  induction fields generalizing place with
  | nil => exact ⟨place, rfl⟩
  | cons first rest ih =>
      obtain ⟨k, v⟩ := first
      obtain ⟨hfresh, hrest⟩ := List.nodup_cons.1 hkeys
      obtain ⟨hk, hothers⟩ := List.forall_mem_cons.1 hdirect
      obtain ⟨place', hplace'⟩ := ih hothers hrest (place + 1)
      rw [Reading.ofFields, Entries.occurrences, hk]
      by_cases hname : k = name
      · subst hname
        have hnone : Keyed.get? rest k = none := Keyed.get?_eq_none_iff.2 hfresh
        rw [hnone] at hplace'
        rw [if_pos rfl, hplace', Keyed.get?, if_pos rfl]
        exact ⟨place, rfl⟩
      · rw [if_neg hname, Keyed.get?, if_neg hname]
        exact ⟨place', hplace'⟩

/-- Nothing but its fields can be at fault in the record of a whole value. -/
theorem close_ofFields {attempt : Attempt α} {a : α} :
    (l.ofFields (Reading.ofFields fields)).close attempt = .ok a ↔
      attempt = (Except.ok a : Attempt α) := by
  rw [Entries.close_eq_ok_iff]
  constructor
  · intro h
    exact h.1
  · intro h
    exact ⟨h, strayFault_ofFields l fields 0, rfl⟩

end Layout

/-! ## Written fields -/

/-- The fields of a table that have a value. -/
def present (table : List (String × Option Json)) : List (String × Json) :=
  table.filterMap fun e => e.2.map fun v => (e.1, v)

/-- The names of the fields are distinct, and under each stands what the table has for it. -/
structure WrittenFrom (table : List (String × Option Json)) (fields : List (String × Json)) :
    Prop where
  nodup_keys : (Keyed.keys fields).Nodup
  get?_eq : ∀ name, Keyed.get? fields name = (Keyed.get? table name).join

theorem mem_keys_present {table : List (String × Option Json)} {name : String}
    (h : name ∈ Keyed.keys (present table)) : name ∈ Keyed.keys table := by
  obtain ⟨e, he, rfl⟩ := List.mem_map.1 h
  obtain ⟨e', he', hvalue⟩ := List.mem_filterMap.1 he
  obtain ⟨v, -, rfl⟩ := Option.map_eq_some_iff.1 hvalue
  exact List.mem_map.2 ⟨e', he', rfl⟩

theorem writtenFrom_present {table : List (String × Option Json)}
    (hkeys : (Keyed.keys table).Nodup) : WrittenFrom table (present table) := by
  induction table with
  | nil => exact ⟨List.nodup_nil, fun _ => rfl⟩
  | cons first rest ih =>
      obtain ⟨k, value?⟩ := first
      obtain ⟨hfresh, hrest⟩ := List.nodup_cons.1 hkeys
      have hwritten := ih hrest
      have habsent : k ∉ Keyed.keys (present rest) := fun h => hfresh (mem_keys_present h)
      cases value? with
      | none =>
          -- the name is not written, and it must not be written for another field either
          have hskip : present ((k, none) :: rest) = present rest := rfl
          rw [hskip]
          refine ⟨hwritten.nodup_keys, fun name => ?_⟩
          by_cases hname : k = name
          · subst hname
            rw [Keyed.get?, if_pos rfl]
            exact Keyed.get?_eq_none_iff.2 habsent
          · rw [Keyed.get?, if_neg hname]
            exact hwritten.get?_eq name
      | some v =>
          have hkeep : present ((k, some v) :: rest) = (k, v) :: present rest := rfl
          rw [hkeep]
          refine ⟨List.nodup_cons.2 ⟨habsent, hwritten.nodup_keys⟩, fun name => ?_⟩
          by_cases hname : k = name
          · rw [Keyed.get?, if_pos hname, Keyed.get?, if_pos hname]
            rfl
          · rw [Keyed.get?, if_neg hname, Keyed.get?, if_neg hname]
            exact hwritten.get?_eq name

namespace WrittenFrom

variable {α : Type} {table : List (String × Option Json)} {fields : List (String × Json)}
  {l : Layout} {name : String} {read : Reading → Except DecodeError α} {default? : Option α}

theorem direct (h : WrittenFrom table fields) (hdirect : l.Direct (Keyed.keys table)) :
    l.Direct (Keyed.keys fields) := by
  intro name hname
  refine hdirect name ?_
  by_contra habsent
  have hnone := h.get?_eq name
  rw [Keyed.get?_eq_none_iff.2 habsent] at hnone
  exact Keyed.get?_eq_none_iff.1 hnone hname

/-- A field that has a value is decoded from it. -/
theorem field_eq (h : WrittenFrom table fields) (hdirect : l.Direct (Keyed.keys table)) {v : Json}
    {a : α} (hvalue : Keyed.get? table name = some (some v)) (hread : read (.ofJson v) = .ok a) :
    (l.ofFields (Reading.ofFields fields)).field name read default? =
      (Except.ok a : Attempt α) := by
  obtain ⟨place, hplace⟩ := Layout.occurrences_ofFields (h.direct hdirect) h.nodup_keys name 0
  rw [h.get?_eq, hvalue] at hplace
  refine Entries.field_eq_ok_iff.2 (.inr ⟨place, .ofJson v, hplace, ?_⟩)
  rw [Reading.attempted_ofJson]
  exact hread

/-- A field without a value has its default. -/
theorem field_eq_default (h : WrittenFrom table fields) (hdirect : l.Direct (Keyed.keys table))
    {a : α} (hvalue : Keyed.get? table name = some none) :
    (l.ofFields (Reading.ofFields fields)).field name read (some a) =
      (Except.ok a : Attempt α) := by
  obtain ⟨place, hplace⟩ := Layout.occurrences_ofFields (h.direct hdirect) h.nodup_keys name 0
  rw [h.get?_eq, hvalue] at hplace
  exact Entries.field_eq_ok_iff.2 (.inl ⟨hplace, rfl⟩)

end WrittenFrom

/-! ## Values and lists -/

theorem nat_ofJson (n : Nat) : nat (.ofJson (.nat n)) = .ok n := by
  have hnonneg : ¬ (n : Int) < 0 := by omega
  rw [Json.nat, Reading.ofJson, nat, if_neg hnonneg]
  rfl

theorem json_ofJson (v : Json) : ofJson json v = .ok v.inKeyOrder := by
  rw [ofJson, json, Reading.value?_ofJson]
  rfl

theorem canonical_of_json {r : Reading} {v : Json} (h : json r = .ok v) : v.Canonical := by
  rw [json] at h
  cases hvalue : r.value? with
  | error e =>
      rw [hvalue] at h
      cases h
  | ok v' =>
      rw [hvalue] at h
      cases h
      exact Reading.canonical_of_value? r hvalue

theorem list_ofJson {α β : Type} {read : Reading → Except DecodeError β} {write : α → Json}
    {g : α → β} {as : List α} (h : ∀ a ∈ as, read (.ofJson (write a)) = .ok (g a)) :
    list read (.ofJson (.array (as.map write))) = .ok (as.map g) := by
  induction as with
  | nil => rfl
  | cons a rest ih =>
      obtain ⟨ha, hrest⟩ := List.forall_mem_cons.1 h
      rw [List.map_cons, Reading.ofJson, Reading.ofItems, list, List.mapM_cons]
      exact bind_eq_ok_iff.2 ⟨g a, ha, bind_eq_ok_iff.2 ⟨rest.map g, ih hrest, rfl⟩⟩

/-- Each item of a list is decoded from some reading. -/
theorem exists_of_list_eq_ok {α : Type} {read : Reading → Except DecodeError α} {r : Reading}
    {as : List α} (h : list read r = .ok as) : ∀ a ∈ as, ∃ item, read item = .ok a := by
  cases r with
  | array items =>
      intro a ha
      obtain ⟨item, -, hitem⟩ := exists_of_mapM_eq_ok h a ha
      exact ⟨item, hitem⟩
  | _ => cases h

end SchemaCatalog.Decode
