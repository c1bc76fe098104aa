import SchemaCatalog.Proofs.Entity.Updating

/-!
# Undeclared content

A payload may hold more than its schema declares, at any depth: values for computed properties
and under names that nothing declares. Payloads that agree on what is declared (`AgreesOn`) build
the same entity, or fail with the same error and so with the same message, over any look-up and
for any schema (`AgreesOn.build_eq`); what is put in under other names leaves them in agreement
(`Supplied.agreesOn`).

Agreement looks into a value only where it is taken apart, which is an object where an entity is
wanted, and an array where a list of them is. Any other value is refused as a whole and shown in
the message with all that it holds, as is an array where a single entity is wanted.
-/

set_option autoImplicit false
-- catalogs in closed statements are evaluated, down to the pattern of their keys
set_option maxRecDepth 1000

namespace SchemaCatalog

namespace Entity

/-! ## Payloads that agree on what is declared -/

/-- Two fields for a property of a kind agree on all that is declared in them. -/
inductive Agree (look : Lookup) : Kind → Option Json → Option Json → Prop
  | same (kind : Kind) (field : Option Json) : Agree look kind field field
  /-- Objects agree where an entity is wanted, if their fields do for the properties that the
  schema of the entity declares. -/
  | object {target : String} {fields fields' : List (String × Json)}
      (hfields : ∀ schema, look.require target = .ok schema → ∀ p ∈ schema.properties,
        Agree look p.kind (Keyed.get? fields p.name) (Keyed.get? fields' p.name)) :
      Agree look (.reference target) (some (.object fields)) (some (.object fields'))
  /-- Where a list of entities is wanted, the elements agree one by one. -/
  | list {target : String} {v v' : Json} {pairs : List (Json × Json)}
      (hnull : v.isNull = false) (hnull' : v'.isNull = false)
      (hitems : elements v = pairs.map Prod.fst) (hitems' : elements v' = pairs.map Prod.snd)
      (hpairs : ∀ q ∈ pairs, Agree look (.reference target) (some q.1) (some q.2)) :
      Agree look (.listOfReference target) (some v) (some v')

/-- Two payloads agree on what a schema declares. -/
def AgreesOn (look : Lookup) (schema : Schema) (payload payload' : List (String × Json)) : Prop :=
  ∀ p ∈ schema.properties,
    Agree look p.kind (Keyed.get? payload p.name) (Keyed.get? payload' p.name)

variable {look : Lookup} {schema : Schema}

theorem nested_eq_of_readField_eq {property target : String} {v v' : Json}
    (hschema : look.require target = .ok schema) (hnull : v.isNull = false) (hnull' : v'.isNull = false)
    (h : readField look ⟨property, .reference target, []⟩ (some v) =
      readField look ⟨property, .reference target, []⟩ (some v')) :
    nested look property schema v = nested look property schema v' := by
  rw [readField_of_ne_null hnull, readField_of_ne_null hnull', coerce_reference, coerce_reference,
    hschema] at h
  exact map_injective (fun _ _ => EntityValue.entity.inj) h

/-- Elements that agree are taken for the same entity, or refused alike. -/
theorem Agree.nested_eq {property target : String} {v v' : Json}
    (h : Agree look (.reference target) (some v) (some v'))
    (hread : ∀ p : Property, p.kind = .reference target →
      readField look p (some v) = readField look p (some v'))
    (hschema : look.require target = .ok schema) :
    nested look property schema v = nested look property schema v' := by
  cases h with
  | same => rfl
  | object _ => exact nested_eq_of_readField_eq hschema rfl rfl (hread _ rfl)

/-- Fields that agree are read the same, also where they cannot be read. -/
theorem Agree.readField_eq {kind : Kind} {field field' : Option Json}
    (h : Agree look kind field field') :
    ∀ p : Property, p.kind = kind → readField look p field = readField look p field' := by
  induction h with
  | same kind field => exact fun _ _ => rfl
  | @object target fields fields' _ ih =>
      intro p hp
      rw [readField_of_ne_null rfl, readField_of_ne_null rfl, hp, coerce_reference, coerce_reference]
      cases hschema : look.require target with
      | error e => rfl
      | ok schema =>
          have hbuild : build look schema fields = build look schema fields' :=
            build_congr fun q hq => ih schema hschema q hq q rfl
          exact congrArg (EntityValue.entity <$> ·) hbuild
  | @list target v v' pairs hnull hnull' hitems hitems' hpairs ih =>
      intro p hp
      rw [readField_of_ne_null hnull, readField_of_ne_null hnull', hp, coerce_listOfReference,
        coerce_listOfReference]
      cases hschema : look.require target with
      | error e => rfl
      | ok schema =>
          have hnested : (elements v).mapM (nested look p.name schema) =
              (elements v').mapM (nested look p.name schema) := by
            rw [hitems, hitems', List.mapM_map, List.mapM_map]
            exact mapM_congr fun q hq => (hpairs q hq).nested_eq (ih q hq) hschema
          exact congrArg (EntityValue.entityList <$> ·) hnested

/-- Payloads that agree on what a schema declares build the same entity, or fail alike. -/
theorem AgreesOn.build_eq {payload payload' : List (String × Json)}
    (h : AgreesOn look schema payload payload') :
    build look schema payload = build look schema payload' :=
  build_congr fun p hp => (h p hp).readField_eq p rfl

/-! ## Values that are supplied besides -/

/-- The second payload is the first with a value put in at some depth, under a name that the
schema of that place does not declare. -/
inductive Supplied (look : Lookup) : Schema → List (String × Json) → List (String × Json) → Prop
  | here {schema : Schema} {fields : List (String × Json)} {name : String} (v : Json)
      (hname : name ∉ schema.properties.map Property.name) :
      Supplied look schema fields (Keyed.insert fields name v)
  /-- In the object for a reference to a single entity. -/
  | object {schema related : Schema} {fields inner inner' : List (String × Json)}
      {name target : String} (hkind : ∀ p ∈ schema.properties, p.name = name → p.kind = .reference target)
      (hrelated : look.require target = .ok related)
      (hinner : Keyed.get? fields name = some (.object inner)) (h : Supplied look related inner inner') :
      Supplied look schema fields (Keyed.insert fields name (.object inner'))
  /-- In an object of a list of references, or in the one that stands for such a list. -/
  | element {schema related : Schema} {fields inner inner' : List (String × Json)}
      {name target : String} {v v' : Json} {front back : List Json}
      (hkind : ∀ p ∈ schema.properties, p.name = name → p.kind = .listOfReference target)
      (hrelated : look.require target = .ok related) (hv : Keyed.get? fields name = some v)
      (hitems : elements v = front ++ .object inner :: back)
      (hitems' : elements v' = front ++ .object inner' :: back) (h : Supplied look related inner inner') :
      Supplied look schema fields (Keyed.insert fields name v')

theorem isNull_of_mem_elements {v : Json} {fields : List (String × Json)}
    (h : .object fields ∈ elements v) : v.isNull = false := by
  cases v with
  | null => cases List.mem_singleton.1 h
  | bool b => rfl
  | number n => rfl
  | string s => rfl
  | array items => rfl
  | object fields => rfl

/-- Payloads agree that differ in one field, which agrees for each property with its name. -/
theorem agreesOn_insert {payload : List (String × Json)} {name : String} {v : Json}
    (h : ∀ p ∈ schema.properties, p.name = name →
      Agree look p.kind (Keyed.get? payload name) (some v)) :
    AgreesOn look schema payload (Keyed.insert payload name v) := by
  intro p hp
  rw [Keyed.get?_insert]
  by_cases hname : p.name = name
  · rw [if_pos hname, hname]
    exact h p hp hname
  · rw [if_neg hname]
    exact .same p.kind _

theorem Agree.object_of_agreesOn {target : String} {fields fields' : List (String × Json)}
    (hschema : look.require target = .ok schema) (h : AgreesOn look schema fields fields') :
    Agree look (.reference target) (some (.object fields)) (some (.object fields')) := by
  refine .object fun found hfound => ?_
  cases hschema.symm.trans hfound
  exact h

/-- What is supplied besides leaves payloads in agreement. -/
theorem Supplied.agreesOn {payload payload' : List (String × Json)}
    (h : Supplied look schema payload payload') : AgreesOn look schema payload payload' := by
  induction h with
  | here v hname =>
      refine agreesOn_insert fun p hp heq => absurd ?_ hname
      exact List.mem_map.2 ⟨p, hp, heq⟩
  | object hkind hrelated hinner _ ih =>
      refine agreesOn_insert fun p hp heq => ?_
      rw [hkind p hp heq, hinner]
      exact .object_of_agreesOn hrelated ih
  | @element schema related fields inner inner' name target v v' front back hkind hrelated hv hitems
      hitems' _ ih =>
      refine agreesOn_insert fun p hp heq => ?_
      have hnull : v.isNull = false := isNull_of_mem_elements (hitems ▸ List.mem_append_cons_self)
      have hnull' : v'.isNull = false := isNull_of_mem_elements (hitems' ▸ List.mem_append_cons_self)
      -- each element is paired with itself, except for the one with the object
      let itself : Json → Json × Json := fun w => (w, w)
      rw [hkind p hp heq, hv]
      refine @Agree.list look target v v'
        (front.map itself ++ (.object inner, .object inner') :: back.map itself) hnull hnull' ?_ ?_ ?_
      · simp [hitems, itself, Function.comp_def]
      · simp [hitems', itself, Function.comp_def]
      · intro q hq
        rcases List.mem_append.1 hq with hfront | hrest
        · obtain ⟨w, -, rfl⟩ := List.mem_map.1 hfront
          exact .same _ _
        · rcases List.mem_cons.1 hrest with rfl | hback
          · exact .object_of_agreesOn hrelated ih
          · obtain ⟨w, -, rfl⟩ := List.mem_map.1 hback
            exact .same _ _

end Entity

namespace Catalog

open Entity (build AgreesOn Supplied)

/-- In any catalog and for any schema, payloads that agree on what is declared give the same
entity or the same error; so what is supplied at any depth for computed properties, or under
names that are not known, changes nothing. -/
theorem build_of_agreesOn (c : Catalog) (schema : Schema) :
    (∀ payload payload', AgreesOn c.lookup schema payload payload' →
      build c.lookup schema payload = build c.lookup schema payload') ∧
    ∀ payload payload', Supplied c.lookup schema payload payload' →
      build c.lookup schema payload = build c.lookup schema payload' :=
  ⟨fun _ _ h => h.build_eq, fun _ _ h => h.agreesOn.build_eq⟩

/-- The second payload has a floor for the home, which no address has, and a note for one of the
stays; it also has a value for the computed label. -/
theorem build_of_agreesOn_nested :
    let address : Schema := ⟨some 1, "Address", "", none, [⟨"city", .scalar .string, []⟩], [], 1⟩
    let person : Schema :=
      ⟨none, "Person", "", none,
        [⟨"home", .reference "Address", []⟩, ⟨"stays", .listOfReference "Address", []⟩],
        [⟨"label", .scalar .string, "data.home.city"⟩], 0⟩
    let place (city : String) : List (String × Json) := [("city", .string city)]
    let payload : List (String × Json) :=
      [("home", .object (place "London")), ("stays", .array [.object (place "Paris"), .object (place "Rome")])]
    let noted : List (String × Json) :=
      [("home", .object (place "London")),
        ("stays", .array [.object (place "Paris"), .object (place "Rome" ++ [("note", .null)])])]
    let payload' : List (String × Json) :=
      [("home", .object (place "London" ++ [("floor", .nat 1)])), ("label", .string "Home"),
        ("stays", .array [.object (place "Paris"), .object (place "Rome" ++ [("note", .null)])])]
    let c := (empty .default .none).run [.save { address with id := none, version := 0 }]
    AgreesOn c.lookup person payload payload' ∧
      build c.lookup person payload = build c.lookup person payload' ∧
      Supplied c.lookup person payload noted ∧
      build c.lookup person payload = build c.lookup person noted := by
  intro address person place payload noted payload' c
  have haddress : Lookup.require c.lookup "Address" = .ok address := by
    subst c address
    with_unfolding_all rfl
  have hfloor : Supplied c.lookup address (place "London") (place "London" ++ [("floor", .nat 1)]) :=
    @Supplied.here c.lookup address (place "London") "floor" (.nat 1) (by decide)
  have hnote : Supplied c.lookup address (place "Rome") (place "Rome" ++ [("note", .null)]) :=
    @Supplied.here c.lookup address (place "Rome") "note" .null (by decide)
  have hsupplied : Supplied c.lookup person payload noted := by
    refine @Supplied.element c.lookup person address payload _ _ "stays" "Address" _
      (.array [.object (place "Paris"), .object (place "Rome" ++ [("note", .null)])])
      [.object (place "Paris")] [] ?_ haddress rfl rfl rfl hnote
    simp [person]
  have hagrees : AgreesOn c.lookup person payload payload' := by
    intro p hp
    rcases List.mem_cons.1 hp with rfl | hp
    · exact .object_of_agreesOn haddress hfloor.agreesOn
    · cases List.mem_singleton.1 hp
      exact hsupplied.agreesOn ⟨"stays", .listOfReference "Address", []⟩ (by simp [person])
  obtain ⟨hagreeing, hsupplying⟩ := build_of_agreesOn c person
  exact ⟨hagrees, hagreeing _ _ hagrees, hsupplied, hsupplying _ _ hsupplied⟩

/-- An array in place of a single address is refused and shown in the message as it is, also with
the floor, although its only object has the same value for all that an address declares. -/
theorem build_shows_refused_array :
    let address : Schema := ⟨some 1, "Address", "", none, [⟨"city", .scalar .string, []⟩], [], 1⟩
    let person : Schema :=
      ⟨some 2, "Person", "", none, [⟨"home", .reference "Address", []⟩], [], 1⟩
    let calls : List Call :=
      [.save { address with id := none, version := 0 }, .save { person with id := none, version := 0 }]
    let fields : List (String × Json) := [("city", .string "London")]
    let fields' : List (String × Json) := [("city", .string "London"), ("floor", .bool true)]
    let c := (empty .default .none).run calls
    c.store.get? "Address" = some address ∧ c.store.get? "Person" = some person ∧
      (∀ p ∈ address.properties, Keyed.get? fields p.name = Keyed.get? fields' p.name) ∧
      ∃ e e', build c.lookup person [("home", .array [.object fields])] = .error e ∧
        build c.lookup person [("home", .array [.object fields'])] = .error e' ∧
        e.message ≠ e'.message := by
  intro address person calls fields fields' c
  have haddress : c.store.get? "Address" = some address := by
    subst c calls person address
    with_unfolding_all rfl
  have hperson : c.store.get? "Person" = some person := by
    subst c calls person address
    with_unfolding_all rfl
  have herror : ∀ items, build c.lookup person [("home", .array items)] =
      .error (.mismatch "home" "Entity<Address>" (.array items)) := by
    intro items
    subst c calls person address
    with_unfolding_all rfl
  refine ⟨haddress, hperson, by simp [address, fields, fields', Keyed.get?], _, _, herror _, herror _, ?_⟩
  decide

end Catalog

end SchemaCatalog
