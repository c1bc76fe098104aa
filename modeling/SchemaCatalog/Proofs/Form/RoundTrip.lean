import SchemaCatalog.Form.Codec
import SchemaCatalog.Proofs.Codec.Stable
import SchemaCatalog.Proofs.Form.Scope

/-!
# Forms that are written and decoded

A component leaves out the fields that have their defaults, and is restored when the components
below it are and what it keeps of expressions is a canonical value (`Kept`, `restored_of_below`).
Whatever a component is decoded from, this holds of it and of all components below it
(`allKept_of_decode`), so forms are stable.
-/

set_option autoImplicit false

namespace SchemaCatalog

open Decode

/-! ## Faults as they are told -/

namespace ValidationError

def table (e : ValidationError) : List (String × Option Json) :=
  [("controlName", some ((e.controlName.map .string).getD .null)),
    ("errorName", some (.string e.errorName))]

theorem keys_table (e : ValidationError) : Keyed.keys e.table = layout.fields := rfl

/-- The other name of a field is not one under which it is written. -/
theorem direct_table (e : ValidationError) : layout.Direct (Keyed.keys e.table) := by
  rw [keys_table, Layout.Direct]
  decide

theorem restored (e : ValidationError) : Restored decode encode e := by
  have hwrite : encode e = .object (present e.table) := rfl
  refine restored_of_table hwrite (by rw [keys_table]; decide) fun o fields h => ?_
  let met := layout.ofFields (Reading.ofFields fields)
  have hcontrol : met.field "controlName" (optional text) (some none) =
      (Except.ok e.controlName : Attempt (Option String)) :=
    h.field_restored e.direct_table rfl (restored_textOrNull "a string" e.controlName)
  have herror : met.field "errorName" text none = (Except.ok e.errorName : Attempt String) :=
    h.field_restored e.direct_table rfl (restored_text e.errorName)
  refine Layout.close_ofFields.2 ?_
  change mk <$> met.field "controlName" (optional text) (some none) <*>
    met.field "errorName" text none = (Except.ok e : Attempt ValidationError)
  rw [hcontrol, herror]
  rfl

end ValidationError

namespace FormComponent

/-! ## Written components -/

/-- The fields of a component; one that has its default is not written. -/
def table (c : FormComponent) : List (String × Option Json) :=
  [("key", c.key.map .string), ("input", some (.bool c.input)), ("type", c.type.map .string),
    ("components",
      if c.components.isEmpty then none else some (.array (encodeAll c.components))),
    ("list", if c.list then some (.bool true) else none),
    ("hidden", if c.hidden then some (.bool true) else none), ("expressions", c.expressions)]

theorem keys_table (c : FormComponent) : Keyed.keys c.table = layout.fields := rfl

theorem textField_eq (name : String) (s? : Option String) :
    textField name s? = present [(name, s?.map .string)] := by
  cases s? with
  | none => rfl
  | some s => rfl

theorem flagField_eq (name : String) (b : Bool) :
    flagField name b = present [(name, if b then some (.bool true) else none)] := by
  cases b with
  | false => rfl
  | true => rfl

theorem encode_eq (c : FormComponent) : encode c = .object (present c.table) := by
  obtain ⟨key, input, type, components, list, hidden, expressions⟩ := c
  have hinput : [("input", Json.bool input)] = present [("input", some (.bool input))] := rfl
  have hcomponents : (if components.isEmpty then []
      else [("components", Json.array (encodeAll components))]) =
        present [("components",
          if components.isEmpty then none else some (.array (encodeAll components)))] := by
    cases components.isEmpty with
    | false => rfl
    | true => rfl
  have hexpressions : (expressions.map fun v => ("expressions", v)).toList =
      present [("expressions", expressions)] := by
    cases expressions with
    | none => rfl
    | some v => rfl
  rw [encode, textField_eq, textField_eq, flagField_eq, flagField_eq, hinput, hcomponents,
    hexpressions]
  simp only [present, ← List.filterMap_append]
  rfl

theorem encodeAll_eq_map (cs : List FormComponent) : encodeAll cs = cs.map encode := by
  induction cs with
  | nil => rfl
  | cons c rest ih => rw [encodeAll, ih, List.map_cons]

theorem decodeItems_eq_mapM (rs : List Reading) : decodeItems rs = rs.mapM decode := by
  induction rs with
  | nil => rfl
  | cons r rest ih => rw [decodeItems, ih, List.mapM_cons]

/-- Components are restored together when each of them is. -/
theorem restored_all {cs : List FormComponent} (h : ∀ c ∈ cs, Restored decode encode c) :
    Restored decodeSequence (fun cs => .array (encodeAll cs)) cs := by
  intro o
  have hitems := restored_list h o
  rw [o.arrange_array, ofJson, Reading.ofJson] at hitems ⊢
  rw [decodeSequence, decodeItems_eq_mapM, encodeAll_eq_map]
  exact hitems

theorem decodeBelow_ofFields {fields : List (String × Json)} {v : Json}
    (h : Keyed.get? fields "components" = some v) :
    decodeBelow (Reading.ofFields fields) = decodeSequence (.ofJson v) := by
  induction fields with
  | nil => cases h
  | cons first rest ih =>
      obtain ⟨k, w⟩ := first
      rw [Keyed.get?] at h
      rw [Reading.ofFields, decodeBelow]
      by_cases hk : k = "components"
      · rw [if_pos hk] at h
        cases h
        rw [if_pos hk]
      · rw [if_neg hk] at h
        rw [if_neg hk, ih h]

/-- What a component keeps of expressions is a canonical value other than null. -/
def Kept (c : FormComponent) : Prop :=
  ∀ v, c.expressions = some v → v.Canonical ∧ v.isNull = false

/-- A component is restored when those below it are. -/
theorem restored_of_below {c : FormComponent} (hkept : c.Kept)
    (hbelow : Restored decodeSequence (fun cs => .array (encodeAll cs)) c.components) :
    Restored decode encode c := by
  refine restored_of_table c.encode_eq (by rw [keys_table]; decide) fun o fields h => ?_
  have hdirect : layout.Direct (Keyed.keys c.table) := .of_aliases rfl
  -- the components are decoded apart from the field in which they stand
  have hcomponents : c.components ≠ [] → Restored (fun _ => decodeBelow (Reading.ofFields fields))
      (fun cs => .array (encodeAll cs)) c.components := by
    intro hne _
    have hvalue : Keyed.get? c.table "components" =
        some (some (.array (encodeAll c.components))) :=
      congrArg some (if_neg (fun hempty => hne (List.isEmpty_iff.1 hempty)))
    rw [ofJson, decodeBelow_ofFields (h.get?_arranged hvalue)]
    exact hbelow o
  let met := layout.ofFields (Reading.ofFields fields)
  have hkey : met.field "key" (optional text) (some none) =
      (Except.ok c.key : Attempt (Option String)) :=
    h.field_present hdirect rfl fun s _ => restored_textOrNull "a string" (some s)
  have hinput : met.field "input" bool (some false) = (Except.ok c.input : Attempt Bool) :=
    h.field_restored hdirect rfl (restored_bool c.input)
  have htype : met.field "type" (optional text) (some none) =
      (Except.ok c.type : Attempt (Option String)) :=
    h.field_present hdirect rfl fun s _ => restored_textOrNull "a string" (some s)
  have hall : met.field "components" (fun _ => decodeBelow (Reading.ofFields fields)) (some []) =
      (Except.ok c.components : Attempt (List FormComponent)) := by
    refine h.field_items hdirect ?_ hcomponents
    rfl
  have hlist : met.field "list" bool (some false) = (Except.ok c.list : Attempt Bool) :=
    h.field_flag hdirect rfl
  have hhidden : met.field "hidden" bool (some false) = (Except.ok c.hidden : Attempt Bool) :=
    h.field_flag hdirect rfl
  have hexpressions : met.field "expressions" (optional json) (some none) =
      (Except.ok c.expressions : Attempt (Option Json)) :=
    h.field_present hdirect (congrArg some Option.map_id'.symm) fun v hv =>
      restored_some (restored_value (hkept v hv).1) (hkept v hv).2
  rw [Reading.ofJson, decode, assemble]
  refine Layout.close_ofFields.2 ?_
  rw [hkey, hinput, htype, hall, hlist, hhidden, hexpressions]
  -- a component that is taken apart into its fields is the same only by cases, being recursive
  cases c
  rfl

/-! ## Components that are kept -/

/-- What the components at every depth keep of expressions can be restored. -/
def AllKept (cs : List FormComponent) : Prop := ∀ d, Below cs d → d.Kept

theorem allKept_nil : AllKept [] := fun _ hd => absurd rfl hd.ne_nil

theorem allKept_cons_iff {c : FormComponent} {rest : List FormComponent} :
    AllKept (c :: rest) ↔ c.Kept ∧ AllKept c.components ∧ AllKept rest := by
  constructor
  · intro h
    exact ⟨h c (below_cons_iff.2 (Or.inl rfl)),
      fun d hd => h d (below_cons_iff.2 (Or.inr (Or.inl hd))),
      fun d hd => h d (below_cons_iff.2 (Or.inr (Or.inr hd)))⟩
  · rintro ⟨hc, hbelow, hrest⟩ d hd
    rcases below_cons_iff.1 hd with rfl | hd | hd
    · exact hc
    · exact hbelow d hd
    · exact hrest d hd

theorem restored_of_allKept (cs : List FormComponent) :
    AllKept cs → ∀ c ∈ cs, Restored decode encode c := by
  induction cs using forestInduction with
  | nil => exact fun _ => List.forall_mem_nil _
  | cons c rest ihbelow ihrest =>
      intro h
      obtain ⟨hc, hbelow, hrest⟩ := allKept_cons_iff.1 h
      exact List.forall_mem_cons.2
        ⟨restored_of_below hc (restored_all (ihbelow hbelow)), ihrest hrest⟩

/-- The two fields of a component that hold more than texts and flags. -/
theorem fields_of_assemble {e : Entries} {below : Except DecodeError (List FormComponent)}
    {c : FormComponent} (h : assemble e below = .ok c) :
    e.field "components" (fun _ => below) (some []) =
        (Except.ok c.components : Attempt (List FormComponent)) ∧
      e.field "expressions" (optional json) (some none) =
        (Except.ok c.expressions : Attempt (Option Json)) := by
  obtain ⟨hattempt, -, -⟩ := Entries.close_eq_ok_iff.1 h
  -- the fields come off one by one from the last to the first
  obtain ⟨_, expressions, hsix, hexpressions, rfl⟩ := Attempt.seq_eq_ok_iff.1 hattempt
  obtain ⟨_, hidden, hfive, -, rfl⟩ := Attempt.seq_eq_ok_iff.1 hsix
  obtain ⟨_, list, hfour, -, rfl⟩ := Attempt.seq_eq_ok_iff.1 hfive
  obtain ⟨_, components, hthree, hcomponents, rfl⟩ := Attempt.seq_eq_ok_iff.1 hfour
  obtain ⟨_, type, htwo, -, rfl⟩ := Attempt.seq_eq_ok_iff.1 hthree
  obtain ⟨_, input, hone, -, rfl⟩ := Attempt.seq_eq_ok_iff.1 htwo
  obtain ⟨key, -, rfl⟩ := Attempt.map_eq_ok_iff.1 hone
  exact ⟨hcomponents, hexpressions⟩

/-- Null stands for none, and every other value is canonical once it is decoded. -/
theorem kept_of_optional_json {v : Json} {v? : Option Json}
    (h : ofJson (optional json) v = .ok v?) :
    ∀ w, v? = some w → w.Canonical ∧ w.isNull = false := by
  rintro w rfl
  have hcanonical : ∀ u : Json, some <$> ofJson json u = .ok (some w) →
      w.Canonical ∧ w = u.inKeyOrder := by
    intro u hu
    obtain ⟨w', hw', heq⟩ := map_eq_ok_iff.1 hu
    cases heq
    refine ⟨canonical_of_json hw', ?_⟩
    rw [json_ofJson] at hw'
    exact (Except.ok.inj hw').symm
  cases v with
  | null => cases h
  | _ =>
      obtain ⟨hw, rfl⟩ := hcanonical _ h
      exact ⟨hw, rfl⟩

theorem allKept_of_assemble {e : Entries} {below : Except DecodeError (List FormComponent)}
    {c : FormComponent} (hwhole : e.Whole) (hbelow : ∀ cs, below = .ok cs → AllKept cs)
    (h : assemble e below = .ok c) : AllKept [c] := by
  obtain ⟨hcomponents, hexpressions⟩ := fields_of_assemble h
  refine allKept_cons_iff.2 ⟨?_, ?_, allKept_nil⟩
  · refine hwhole.of_field_eq_ok
      (P := fun v? => ∀ w, v? = some w → w.Canonical ∧ w.isNull = false) hexpressions ?_
      fun _ _ => kept_of_optional_json
    rintro _ ⟨⟩ w hw
    cases hw
  · refine Entries.of_field_eq_ok hcomponents ?_ fun _ cs => hbelow cs
    rintro _ ⟨⟩
    exact allKept_nil

mutual

/-- A component that is decoded from a value keeps what can be restored, and so does each below
it. -/
theorem allKept_of_decode (v : Json) {c : FormComponent} (h : ofJson decode v = .ok c) :
    AllKept [c] := by
  match v with
  | .null | .bool _ | .number _ | .string _ => cases h
  | .array items =>
      rw [ofJson, Reading.ofJson, decode] at h
      exact allKept_of_assemble (Entries.whole_ofItems layout items)
        (fun cs => allKept_of_decodeAt 3 items) h
  | .object fields =>
      rw [ofJson, Reading.ofJson, decode] at h
      exact allKept_of_assemble (Entries.whole_ofFields layout fields)
        (fun cs => allKept_of_decodeBelow fields) h

theorem allKept_of_decodeBelow (fields : List (String × Json)) {cs : List FormComponent}
    (h : decodeBelow (Reading.ofFields fields) = .ok cs) : AllKept cs := by
  match fields with
  | [] =>
      cases h
      exact allKept_nil
  | (name, v) :: rest =>
      rw [Reading.ofFields, decodeBelow] at h
      split at h
      · exact allKept_of_decodeSequence v h
      · exact allKept_of_decodeBelow rest h

theorem allKept_of_decodeAt (n : Nat) (items : List Json) {cs : List FormComponent}
    (h : decodeAt n (Reading.ofItems items) = .ok cs) : AllKept cs := by
  match n, items with
  | _, [] =>
      rw [Reading.ofItems, decodeAt] at h
      cases h
      exact allKept_nil
  | 0, v :: _ => exact allKept_of_decodeSequence v h
  | n + 1, _ :: rest => exact allKept_of_decodeAt n rest h

theorem allKept_of_decodeSequence (v : Json) {cs : List FormComponent}
    (h : decodeSequence (Reading.ofJson v) = .ok cs) : AllKept cs := by
  match v with
  | .null | .bool _ | .number _ | .string _ | .object _ => cases h
  | .array items => exact allKept_of_decodeItems items h

theorem allKept_of_decodeItems (items : List Json) {cs : List FormComponent}
    (h : decodeItems (Reading.ofItems items) = .ok cs) : AllKept cs := by
  match items with
  | [] =>
      cases h
      exact allKept_nil
  | v :: rest =>
      rw [Reading.ofItems, decodeItems] at h
      obtain ⟨c, hc, h⟩ := bind_eq_ok_iff.1 h
      obtain ⟨others, hothers, h⟩ := bind_eq_ok_iff.1 h
      cases h
      obtain ⟨hkept, hbelow, -⟩ := allKept_cons_iff.1 (allKept_of_decode v hc)
      exact allKept_cons_iff.2 ⟨hkept, hbelow, allKept_of_decodeItems rest hothers⟩

end

/-- Components come back as they were decoded. -/
theorem stable : Stable decode encode := by
  refine .of_restored allKept_of_decode fun c hkept => ?_
  exact restored_of_allKept [c] hkept c List.mem_cons_self

end FormComponent

namespace FormConfiguration

theorem restored {f : FormConfiguration} (hkept : FormComponent.AllKept f.components) :
    Restored decode encode f :=
  restored_single rfl (fun _ => rfl) rfl
    (FormComponent.restored_all (FormComponent.restored_of_allKept f.components hkept))

theorem allKept_of_decode {v : Json} {f : FormConfiguration} (h : ofJson decode v = .ok f) :
    FormComponent.AllKept f.components := by
  obtain ⟨e, hentries, hclose⟩ := bind_eq_ok_iff.1 h
  obtain ⟨hattempt, -, -⟩ := Entries.close_eq_ok_iff.1 hclose
  obtain ⟨components, hcomponents, rfl⟩ := Attempt.map_eq_ok_iff.1 hattempt
  refine (Entries.whole_of_entries hentries).of_field_eq_ok hcomponents ?_
    fun w cs => FormComponent.allKept_of_decodeSequence w
  rintro _ ⟨⟩
  exact FormComponent.allKept_nil

/-- Forms come back as they were decoded. -/
theorem stable : Stable decode encode :=
  .of_restored (fun _ _ => allKept_of_decode) fun _ => restored

end FormConfiguration

end SchemaCatalog
