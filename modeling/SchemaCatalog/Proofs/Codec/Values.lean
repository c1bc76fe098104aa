import SchemaCatalog.Json.Reading
import SchemaCatalog.Proofs.Keyed
import SchemaCatalog.Proofs.Results

/-!
# Values that are read

Whatever a value is read from, it is canonical (`Reading.canonical_of_value?`). From the reading of
a whole value comes the same value with the fields of every object in key order
(`Reading.value?_ofJson`), which changes nothing that is found under a name.
-/

set_option autoImplicit false

namespace SchemaCatalog

/-! ## Values in key order -/

namespace Json

mutual

/-- The value with the fields of every object in key order. -/
def inKeyOrder : Json → Json
  | .array items => .array (itemsInKeyOrder items)
  | .object fields => .object (Keyed.ofList (fieldsInKeyOrder fields))
  | .null => .null
  | .bool b => .bool b
  | .number n => .number n
  | .string s => .string s

/-- The items with the fields of every object in them in key order. -/
def itemsInKeyOrder : List Json → List Json
  | [] => []
  | v :: vs => inKeyOrder v :: itemsInKeyOrder vs

/-- The fields as they stand, with those of every object in them in key order. -/
def fieldsInKeyOrder : List (String × Json) → List (String × Json)
  | [] => []
  | (k, v) :: rest => (k, inKeyOrder v) :: fieldsInKeyOrder rest

end

theorem itemsInKeyOrder_eq_map (items : List Json) : itemsInKeyOrder items = items.map inKeyOrder := by
  induction items with
  | nil => rfl
  | cons v vs ih => rw [itemsInKeyOrder, ih, List.map_cons]

theorem fieldsInKeyOrder_eq_map (fields : List (String × Json)) :
    fieldsInKeyOrder fields = fields.map fun e => (e.1, e.2.inKeyOrder) := by
  induction fields with
  | nil => rfl
  | cons e rest ih => rw [fieldsInKeyOrder, ih, List.map_cons]

mutual

/-- Canonical values are in key order already. -/
theorem inKeyOrder_of_canonical {v : Json} (h : v.Canonical) : v.inKeyOrder = v := by
  match v with
  | .null | .bool _ | .number _ | .string _ => rfl
  | .array items =>
      rw [Canonical] at h
      rw [inKeyOrder, itemsInKeyOrder_of_canonical h]
  | .object fields =>
      rw [Canonical] at h
      rw [inKeyOrder, fieldsInKeyOrder_of_canonical h.2, Keyed.ofList_of_sorted h.1]

theorem itemsInKeyOrder_of_canonical {items : List Json} (h : CanonicalItems items) :
    itemsInKeyOrder items = items := by
  match items with
  | [] => rfl
  | v :: vs =>
      rw [CanonicalItems] at h
      rw [itemsInKeyOrder, inKeyOrder_of_canonical h.1, itemsInKeyOrder_of_canonical h.2]

theorem fieldsInKeyOrder_of_canonical {fields : List (String × Json)} (h : CanonicalFields fields) :
    fieldsInKeyOrder fields = fields := by
  match fields with
  | [] => rfl
  | (k, v) :: rest =>
      rw [CanonicalFields] at h
      rw [fieldsInKeyOrder, inKeyOrder_of_canonical h.1, fieldsInKeyOrder_of_canonical h.2]

end

/-- Under distinct names the same values are found, each in key order. -/
theorem get?_fieldsInKeyOrder {fields : List (String × Json)} (hkeys : (Keyed.keys fields).Nodup)
    (name : String) :
    Keyed.get? (Keyed.ofList (fieldsInKeyOrder fields)) name =
      (Keyed.get? fields name).map inKeyOrder := by
  have hsame : Keyed.keys (fieldsInKeyOrder fields) = Keyed.keys fields := by
    rw [fieldsInKeyOrder_eq_map, Keyed.keys, List.map_map]
    rfl
  rw [Keyed.get?_ofList (hsame.symm ▸ hkeys), fieldsInKeyOrder_eq_map, Keyed.get?_map]

end Json

/-! ## Reading values -/

namespace Reading

mutual

/-- What is read of a whole value is that value in key order. -/
theorem value?_ofJson (v : Json) : value? (ofJson v) = .ok v.inKeyOrder := by
  match v with
  | .null | .bool _ | .number _ | .string _ => rfl
  | .array items =>
      rw [ofJson, value?, items?_ofItems items, Json.inKeyOrder]
      rfl
  | .object fields =>
      rw [ofJson, value?, fields?_ofFields fields, Json.inKeyOrder]
      rfl

theorem items?_ofItems (items : List Json) :
    items? (ofItems items) = .ok (Json.itemsInKeyOrder items) := by
  match items with
  | [] => rfl
  | v :: vs =>
      rw [ofItems, items?, value?_ofJson v, items?_ofItems vs, Json.itemsInKeyOrder]
      rfl

theorem fields?_ofFields (fields : List (String × Json)) :
    fields? (ofFields fields) = .ok (Json.fieldsInKeyOrder fields) := by
  match fields with
  | [] => rfl
  | (k, v) :: rest =>
      rw [ofFields, fields?, value?_ofJson v, fields?_ofFields rest, Json.fieldsInKeyOrder]
      rfl

end

theorem attempted_ofJson (v : Json) : (ofJson v).attempted = ofJson v := by
  cases v <;> rfl

theorem skipFault?_ofJson (v : Json) : (ofJson v).skipFault? = none := by
  cases v <;> rfl

mutual

/-- Every value that is read is canonical. -/
theorem canonical_of_value? (r : Reading) {v : Json} (h : value? r = .ok v) : v.Canonical := by
  match r with
  | .null | .bool _ | .number _ | .string _ =>
      cases h
      simp only [Json.Canonical]
  | .fault e => cases h
  | .unfinished r skipped => exact canonical_of_value? r h
  | .array items =>
      obtain ⟨vs, hvs, rfl⟩ := map_eq_ok_iff.1 h
      rw [Json.Canonical, Json.canonicalItems_iff]
      exact canonical_of_items? items hvs
  | .object fields =>
      obtain ⟨vs, hvs, rfl⟩ := map_eq_ok_iff.1 h
      dsimp only [Function.comp_apply]
      rw [Json.Canonical, Json.canonicalFields_iff]
      refine ⟨Keyed.sorted_ofList vs, fun e he => ?_⟩
      exact canonical_of_fields? fields hvs e (Keyed.mem_of_mem_ofList he)

theorem canonical_of_items? (rs : List Reading) {vs : List Json} (h : items? rs = .ok vs) :
    ∀ v ∈ vs, v.Canonical := by
  match rs with
  | [] =>
      cases h
      exact List.forall_mem_nil _
  | r :: rs =>
      obtain ⟨v, hv, h⟩ := bind_eq_ok_iff.1 h
      obtain ⟨others, hothers, h⟩ := bind_eq_ok_iff.1 h
      cases h
      exact List.forall_mem_cons.2 ⟨canonical_of_value? r hv, canonical_of_items? rs hothers⟩

theorem canonical_of_fields? (fields : List (String × Reading)) {vs : List (String × Json)}
    (h : fields? fields = .ok vs) : ∀ e ∈ vs, e.2.Canonical := by
  match fields with
  | [] =>
      cases h
      exact List.forall_mem_nil _
  | (k, r) :: rest =>
      obtain ⟨v, hv, h⟩ := bind_eq_ok_iff.1 h
      obtain ⟨others, hothers, h⟩ := bind_eq_ok_iff.1 h
      cases h
      exact List.forall_mem_cons.2 ⟨canonical_of_value? r hv, canonical_of_fields? rest hothers⟩

end

end Reading

end SchemaCatalog
