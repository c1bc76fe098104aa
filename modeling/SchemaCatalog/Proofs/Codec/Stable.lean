import SchemaCatalog.Proofs.Codec.Records

/-!
# Values that come back

A value is restored when it is decoded from what it is written as, whether the fields stand in
the order of declaration or by their names (`Restored`). A record is restored when each of its
fields is, and a field that is left out when it has its default is restored as that
(`restored_of_table`, `WrittenFrom.field_restored`, `WrittenFrom.field_left_out`). A codec under
which everything that is decoded is restored is stable (`Stable.of_restored`).
-/

set_option autoImplicit false

namespace SchemaCatalog.Decode

/-! ## Orders of fields -/

/-- In which order the fields of written objects stand: as they were put together, which is how a
text has them, or by their names, which is how values are kept. -/
inductive FieldOrder where
  | declared
  | byName

namespace FieldOrder

/-- A written value with its fields in an order. -/
def arrange : FieldOrder → Json → Json
  | declared, v => v
  | byName, v => v.inKeyOrder

/-- The values of a table with their fields in an order. -/
def arrangeTable (o : FieldOrder) (table : List (String × Option Json)) :
    List (String × Option Json) :=
  table.map fun e => (e.1, e.2.map o.arrange)

theorem arrange_canonical (o : FieldOrder) {v : Json} (h : v.Canonical) : o.arrange v = v := by
  cases o with
  | declared => rfl
  | byName => exact Json.inKeyOrder_of_canonical h

theorem arrange_array (o : FieldOrder) (items : List Json) :
    o.arrange (.array items) = .array (items.map o.arrange) := by
  cases o with
  | declared => exact congrArg Json.array (List.map_id' items).symm
  | byName => exact congrArg Json.array (Json.itemsInKeyOrder_eq_map items)

theorem keys_arrangeTable (o : FieldOrder) (table : List (String × Option Json)) :
    Keyed.keys (o.arrangeTable table) = Keyed.keys table := by
  rw [arrangeTable, Keyed.keys, List.map_map]
  rfl

theorem get?_arrangeTable (o : FieldOrder) {table : List (String × Option Json)} {name : String}
    {value? : Option Json} (hvalue : Keyed.get? table name = some value?) :
    Keyed.get? (o.arrangeTable table) name = some (value?.map o.arrange) := by
  rw [arrangeTable, Keyed.get?_map, hvalue]
  rfl

/-- A value is null in either order of the fields or in none. -/
theorem isNull_arrange (o : FieldOrder) (v : Json) : (o.arrange v).isNull = v.isNull := by
  cases o with
  | declared => rfl
  | byName => cases v <;> rfl

/-- In key order the fields are written from the values in key order. -/
theorem writtenFrom_byName {table : List (String × Option Json)} {fields : List (String × Json)}
    (h : WrittenFrom table fields) :
    WrittenFrom (arrangeTable .byName table) (Keyed.ofList (Json.fieldsInKeyOrder fields)) := by
  refine ⟨(Keyed.sorted_ofList _).nodup_keys, fun name => ?_⟩
  rw [Json.get?_fieldsInKeyOrder h.nodup_keys, h.get?_eq, arrangeTable, Keyed.get?_map]
  cases Keyed.get? table name with
  | none => rfl
  | some value? => rfl

/-- An object that is written from a table is written from it in either order. -/
theorem exists_arrange_present (o : FieldOrder) {table : List (String × Option Json)}
    (hkeys : (Keyed.keys table).Nodup) : ∃ fields,
      o.arrange (.object (present table)) = .object fields ∧
        WrittenFrom (o.arrangeTable table) fields := by
  have hwritten := writtenFrom_present hkeys
  cases o with
  | declared =>
      have hsame : arrangeTable .declared table = table := by
        refine (List.map_congr_left fun e _ => ?_).trans (List.map_id table)
        exact Prod.ext rfl Option.map_id'
      rw [hsame]
      exact ⟨_, rfl, hwritten⟩
  | byName => exact ⟨_, rfl, writtenFrom_byName hwritten⟩

end FieldOrder

/-! ## Restored values -/

section Restored

variable {α : Type}

/-- What is decoded from a value as it is written, in either order of the fields, is that value. -/
def Restored (read : Reading → Except DecodeError α) (write : α → Json) (a : α) : Prop :=
  ∀ o : FieldOrder, ofJson read (o.arrange (write a)) = .ok a

theorem restored_text (s : String) : Restored text .string s
  | .declared => rfl
  | .byName => rfl

theorem restored_bool (b : Bool) : Restored bool .bool b
  | .declared => rfl
  | .byName => rfl

theorem restored_nat (n : Nat) : Restored nat .nat n
  | .declared => nat_ofJson n
  | .byName => nat_ofJson n

/-- A canonical value is restored as it is. -/
theorem restored_value {v : Json} (hcanonical : v.Canonical) : Restored json id v := by
  intro o
  rw [id, o.arrange_canonical hcanonical, json_ofJson, Json.inKeyOrder_of_canonical hcanonical]

/-- Where null stands for none, what is written as another value is restored. -/
theorem restored_some {read : Reading → Except DecodeError α} {write : α → Json} {a : α}
    (h : Restored read write a) (hnull : (write a).isNull = false) :
    Restored (optional read) (fun a? => (a?.map write).getD .null) (some a) := by
  intro o
  change ofJson (optional read) (o.arrange (write a)) = .ok (some a)
  have hread := h o
  -- what is written is null in neither order, so it is decoded as it stands
  have hpresent := o.isNull_arrange (write a)
  rw [hnull] at hpresent
  cases hvalue : o.arrange (write a) with
  | null =>
      rw [hvalue] at hpresent
      cases hpresent
  | _ =>
      rw [hvalue] at hread
      exact map_eq_ok_iff.2 ⟨a, hread, rfl⟩

/-- The absence of a text that is written as null is restored. -/
theorem restored_textOrNull (expected : String) (s? : Option String) :
    Restored (optional (textAs expected)) (fun s? => (s?.map Json.string).getD .null) s? := by
  intro o
  cases s? with
  | none => cases o <;> rfl
  | some s => cases o <;> rfl

theorem restored_list {read : Reading → Except DecodeError α} {write : α → Json} {as : List α}
    (h : ∀ a ∈ as, Restored read write a) :
    Restored (list read) (fun as => .array (as.map write)) as := by
  intro o
  have hitems : list read (.ofJson (.array (as.map (o.arrange ∘ write)))) = .ok (as.map id) :=
    list_ofJson fun a ha => h a ha o
  rw [o.arrange_array, List.map_map]
  rwa [List.map_id] at hitems

/-- Values that are canonical are restored together. -/
theorem restored_values {vs : List Json} (hcanonical : ∀ v ∈ vs, v.Canonical) :
    Restored (list json) .array vs := by
  have hitems : Restored (list json) (fun vs => .array (vs.map id)) vs :=
    restored_list fun v hv => restored_value (hcanonical v hv)
  intro o
  rw [← List.map_id vs]
  exact (hitems o).trans (congrArg Except.ok (List.map_id vs).symm)

/-- A map whose keys increase is restored. -/
theorem restored_mapOf_text {m : List (String × String)} (h : Keyed.Sorted m) :
    Restored (mapOf text) (fun m => .object (m.map fun e => (e.1, .string e.2))) m := by
  have hread : ∀ entries : List (String × String),
      (Reading.ofFields (entries.map fun e => (e.1, Json.string e.2))).mapM
        (fun e => (e.1, ·) <$> text e.2.attempted) = .ok entries := by
    intro entries
    induction entries with
    | nil => rfl
    | cons e rest ih =>
        rw [List.map_cons, Reading.ofFields, List.mapM_cons]
        exact bind_eq_ok_iff.2 ⟨e, rfl, bind_eq_ok_iff.2 ⟨rest, ih, rfl⟩⟩
  -- texts under increasing keys are canonical, so both orders of the fields are the same
  have hcanonical : (Json.object (m.map fun e => (e.1, .string e.2))).Canonical := by
    rw [Json.Canonical, Json.canonicalFields_iff]
    refine ⟨List.pairwise_map.2 h, List.forall_mem_map.2 fun e _ => ?_⟩
    simp only [Json.Canonical]
  intro o
  rw [o.arrange_canonical hcanonical, ofJson, Reading.ofJson, mapOf, hread]
  exact congrArg Except.ok (Keyed.ofList_of_sorted h)

/-- The keys of a map that is decoded increase. -/
theorem sorted_of_mapOf {read : Reading → Except DecodeError α} {r : Reading}
    {m : List (String × α)} (h : mapOf read r = .ok m) : Keyed.Sorted m := by
  cases r with
  | object fields =>
      obtain ⟨entries, -, rfl⟩ := map_eq_ok_iff.1 h
      exact Keyed.sorted_ofList entries
  | _ => cases h

/-- A record is restored when it is decoded from all fields that are written from its table. -/
theorem restored_of_table {read : Reading → Except DecodeError α} {write : α → Json} {a : α}
    {table : List (String × Option Json)} (hwrite : write a = .object (present table))
    (hkeys : (Keyed.keys table).Nodup)
    (h : ∀ (o : FieldOrder) (fields : List (String × Json)),
      WrittenFrom (o.arrangeTable table) fields → read (.ofJson (.object fields)) = .ok a) :
    Restored read write a := by
  intro o
  obtain ⟨fields, harranged, hwritten⟩ := o.exists_arrange_present hkeys
  rw [hwrite, harranged]
  exact h o fields hwritten

end Restored

/-! ## Restored fields -/

namespace WrittenFrom

variable {α : Type} {o : FieldOrder} {table : List (String × Option Json)}
  {fields : List (String × Json)} {l : Layout} {name : String}
  {read : Reading → Except DecodeError α} {write : α → Json} {default? : Option α} {a : α}

/-- What stands under a name is what the table has for it. -/
theorem get?_arranged (h : WrittenFrom (o.arrangeTable table) fields) {value? : Option Json}
    (hvalue : Keyed.get? table name = some value?) :
    Keyed.get? fields name = value?.map o.arrange := by
  rw [h.get?_eq, o.get?_arrangeTable hvalue]
  rfl

/-- A field that is always written is restored with its value. -/
theorem field_restored (h : WrittenFrom (o.arrangeTable table) fields)
    (hdirect : l.Direct (Keyed.keys table))
    (hvalue : Keyed.get? table name = some (some (write a))) (hread : Restored read write a) :
    (l.ofFields (Reading.ofFields fields)).field name read default? =
      (Except.ok a : Attempt α) := by
  rw [← o.keys_arrangeTable] at hdirect
  exact h.field_eq hdirect (o.get?_arrangeTable hvalue) (hread o)

/-- A field that is left out has the default. -/
theorem field_left_out (h : WrittenFrom (o.arrangeTable table) fields)
    (hdirect : l.Direct (Keyed.keys table)) (hvalue : Keyed.get? table name = some none) :
    (l.ofFields (Reading.ofFields fields)).field name read (some a) =
      (Except.ok a : Attempt α) := by
  rw [← o.keys_arrangeTable] at hdirect
  exact h.field_eq_default hdirect (o.get?_arrangeTable hvalue)

/-- A field that is written only when there is a value is restored. -/
theorem field_present (h : WrittenFrom (o.arrangeTable table) fields)
    (hdirect : l.Direct (Keyed.keys table)) {a? : Option α}
    (hvalue : Keyed.get? table name = some (a?.map write))
    (hread : ∀ a, a? = some a →
      Restored (optional read) (fun a? => (a?.map write).getD .null) (some a)) :
    (l.ofFields (Reading.ofFields fields)).field name (optional read) (some none) =
      (Except.ok a? : Attempt (Option α)) := by
  cases a? with
  | none => exact h.field_left_out hdirect hvalue
  | some a =>
      have hwritten : Keyed.get? table name =
          some (some (((some a).map write).getD .null)) := hvalue
      exact h.field_restored hdirect hwritten (hread a rfl)

/-- A field that is written only when it is true is restored. -/
theorem field_flag (h : WrittenFrom (o.arrangeTable table) fields)
    (hdirect : l.Direct (Keyed.keys table)) {b : Bool}
    (hvalue : Keyed.get? table name = some (if b then some (.bool true) else none)) :
    (l.ofFields (Reading.ofFields fields)).field name bool (some false) =
      (Except.ok b : Attempt Bool) := by
  cases b with
  | false => exact h.field_left_out hdirect hvalue
  | true => exact h.field_restored hdirect hvalue (restored_bool true)

/-- A field that is written only when there are items is restored. -/
theorem field_items (h : WrittenFrom (o.arrangeTable table) fields)
    (hdirect : l.Direct (Keyed.keys table)) {read : Reading → Except DecodeError (List α)}
    {write : List α → Json} {as : List α}
    (hvalue : Keyed.get? table name = some (if as.isEmpty then none else some (write as)))
    (hread : as ≠ [] → Restored read write as) :
    (l.ofFields (Reading.ofFields fields)).field name read (some []) =
      (Except.ok as : Attempt (List α)) := by
  cases as with
  | nil => exact h.field_left_out hdirect hvalue
  | cons a rest => exact h.field_restored hdirect hvalue (hread (List.cons_ne_nil a rest))

end WrittenFrom

/-- A record of one field that is always written is restored when the field is. -/
theorem restored_single {α β : Type} {decode : Reading → Except DecodeError α} {encode : α → Json}
    {l : Layout} {name : String} {read : Reading → Except DecodeError β} {write : β → Json}
    {default? : Option β} {make : β → α} {b : β} (haliases : l.aliases = [])
    (hdecode : ∀ r, decode r = (do
      let e ← l.entries r
      e.close (make <$> e.field name read default?)))
    (hencode : encode (make b) = .object [(name, write b)]) (hfield : Restored read write b) :
    Restored decode encode (make b) := by
  have hwrite : encode (make b) = .object (present [(name, some (write b))]) := hencode
  refine restored_of_table hwrite (List.nodup_singleton _) fun o fields h => ?_
  have hvalue : Keyed.get? [(name, some (write b))] name = some (some (write b)) := if_pos rfl
  have hmet : (l.ofFields (Reading.ofFields fields)).field name read default? =
      (Except.ok b : Attempt β) := h.field_restored (.of_aliases haliases) hvalue hfield
  rw [hdecode]
  refine Layout.close_ofFields.2 ?_
  rw [hmet]
  rfl

/-! ## Records of whole values -/

namespace Entries

variable {α : Type} {e : Entries} {name : String} {read : Reading → Except DecodeError α}
  {default? : Option α} {a : α}

/-- The fields of a record are those of a whole value; none of them is an unfinished reading. -/
def Whole (e : Entries) : Prop := ∀ m ∈ e.met, ∃ v, m.2 = Reading.ofJson v

theorem whole_ofFields (l : Layout) (fields : List (String × Json)) :
    (l.ofFields (Reading.ofFields fields)).Whole := by
  rw [Whole, Layout.ofFields]
  induction fields with
  | nil => exact List.forall_mem_nil _
  | cons first rest ih =>
      rw [Reading.ofFields]
      exact List.forall_mem_cons.2 ⟨⟨first.2, rfl⟩, ih⟩

theorem whole_ofItems (l : Layout) (items : List Json) :
    (l.ofItems (Reading.ofItems items)).Whole := by
  have hitems : ∀ r ∈ Reading.ofItems items, ∃ v, r = Reading.ofJson v := by
    induction items with
    | nil => exact List.forall_mem_nil _
    | cons first rest ih =>
        rw [Reading.ofItems]
        exact List.forall_mem_cons.2 ⟨⟨first, rfl⟩, ih⟩
  intro m hm
  exact hitems m.2 (List.of_mem_zip hm).2

theorem whole_of_entries {l : Layout} {v : Json} (h : l.entries (.ofJson v) = .ok e) :
    e.Whole := by
  cases v with
  | array items =>
      cases h
      exact whole_ofItems l items
  | object fields =>
      cases h
      exact whole_ofFields l fields
  | _ => cases h

theorem exists_mem_of_mem_occurrences {l : Layout} {met : List (String × Reading)}
    {place place' : Nat} {r : Reading} (h : (place', r) ∈ occurrences l name place met) :
    ∃ k, (k, r) ∈ met := by
  induction met generalizing place with
  | nil => cases h
  | cons first rest ih =>
      rw [occurrences] at h
      split at h
      · rcases List.mem_cons.1 h with heq | h
        · cases heq
          exact ⟨first.1, List.mem_cons_self⟩
        · obtain ⟨k, hk⟩ := ih h
          exact ⟨k, List.mem_cons_of_mem first hk⟩
      · obtain ⟨k, hk⟩ := ih h
        exact ⟨k, List.mem_cons_of_mem first hk⟩

/-- What holds of the default of a field and of all that is decoded from values holds of a field
of a whole value. -/
theorem Whole.of_field_eq_ok {P : α → Prop} (hwhole : e.Whole)
    (h : e.field name read default? = (Except.ok a : Attempt α))
    (hdefault : ∀ d, default? = some d → P d) (hread : ∀ v b, ofJson read v = .ok b → P b) :
    P a := by
  rcases field_eq_ok_iff.1 h with ⟨-, hmissing⟩ | ⟨place, r, honly, hr⟩
  · exact hdefault a hmissing
  · have hmem : (place, r) ∈ occurrences e.layout name 0 e.met := by
      rw [honly]
      exact List.mem_singleton_self _
    obtain ⟨k, hk⟩ := exists_mem_of_mem_occurrences hmem
    obtain ⟨v, rfl⟩ := hwhole _ hk
    rw [Reading.attempted_ofJson] at hr
    exact hread v a hr

end Entries

/-! ## Stable codecs -/

/-- The values that are exchanged for a written one: itself, as a text has it, and the value that
is read from it, as values are kept. -/
def Serialized (written v : Json) : Prop := v = written ∨ ofJson json written = .ok v

theorem serialized_iff {written v : Json} :
    Serialized written v ↔ ∃ o : FieldOrder, v = o.arrange written := by
  rw [Serialized, json_ofJson]
  constructor
  · rintro (rfl | h)
    · exact ⟨.declared, rfl⟩
    · exact ⟨.byName, (Except.ok.inj h).symm⟩
  · rintro ⟨o, rfl⟩
    cases o with
    | declared => exact Or.inl rfl
    | byName => exact Or.inr rfl

section Stable

variable {α : Type}

/-- What a value is rewritten to by a codec: it is decoded, and what is decoded is written. -/
def rewritten (read : Reading → Except DecodeError α) (write : α → Json) (v : Json) :
    Except DecodeError Json := do
  ofJson json (write (← ofJson read v))

/-- Whatever is decoded from a value has a value of its own, and is decoded from that again: to
rewrite a value twice is to rewrite it once. -/
structure Stable (read : Reading → Except DecodeError α) (write : α → Json) : Prop where
  exists_serialized : ∀ v x, ofJson read v = .ok x → ∃ w, rewritten read write v = .ok w ∧
    Serialized (write x) w
  decode_serialized : ∀ v x, ofJson read v = .ok x →
    ∀ w, Serialized (write x) w → ofJson read w = .ok x
  rewritten_again : ∀ v w, rewritten read write v = .ok w → rewritten read write w = .ok w

/-- A codec is stable if it restores all values with a property that what is decoded has. -/
theorem Stable.of_restored {read : Reading → Except DecodeError α} {write : α → Json}
    {P : α → Prop} (hdecoded : ∀ v x, ofJson read v = .ok x → P x)
    (hrestored : ∀ x, P x → Restored read write x) : Stable read write where
  exists_serialized := by
    intro v x hx
    have hwritten := json_ofJson (write x)
    refine ⟨_, ?_, Or.inr hwritten⟩
    rw [rewritten, hx]
    exact hwritten
  decode_serialized := by
    intro v x hx w hw
    obtain ⟨o, rfl⟩ := serialized_iff.1 hw
    exact hrestored x (hdecoded v x hx) o
  rewritten_again := by
    intro v w hw
    obtain ⟨x, hx, hwritten⟩ := bind_eq_ok_iff.1 hw
    obtain ⟨o, rfl⟩ := serialized_iff.1 (Or.inr hwritten)
    rw [rewritten, hrestored x (hdecoded v x hx) o]
    exact hwritten

end Stable

end SchemaCatalog.Decode
