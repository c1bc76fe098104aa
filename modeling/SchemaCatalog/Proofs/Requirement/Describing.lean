import SchemaCatalog.Proofs.Entity.Conformance
import SchemaCatalog.Requirement.Basic

/-!
# What requirements say of entities

The path of a requirement that holds leads through declared properties to one of some kind
(`DataRequirement.LeadsTo`). The same path is walked through an entity, into every member of a
list of entities, until it is used up or there is nothing to walk into (`EntityValue.stops`). A
walk through an entity that fits the schema only stops at values of that kind, and before the
end of the path only where a value is empty or a list of scalars
(`DataRequirement.LeadsTo.fits_of_mem_stops`).

So a requirement of a scalar type describes the entities of the root, if its path does not end
on a reference (`Catalog.satisfied_requirement`). For such a path the key of the schema referred
to counts as the type, and a key may be the name of a scalar type
(`Catalog.requirement_met_by_entity`).
-/

set_option autoImplicit false
-- catalogs in closed statements are evaluated, down to the pattern of their keys
set_option maxRecDepth 1000

namespace SchemaCatalog

/-- The name under which requirements know a kind: that of its scalar type, or the key that it
refers to. -/
def Kind.requiredName : Kind → String
  | .scalar type | .listOfScalar type => type.name
  | .reference target | .listOfReference target => target

theorem Kind.requiredName_of_target? {kind : Kind} {target : String}
    (h : kind.target? = some target) : kind.requiredName = target := by
  cases kind with
  | scalar type => cases h
  | listOfScalar type => cases h
  | reference key =>
      cases h
      rfl
  | listOfReference key =>
      cases h
      rfl

/-- Names that agree up to the case of letters name the same scalar type. -/
theorem ScalarType.eq_of_sameLetters {type type' : ScalarType} {name : String}
    (h : ScalarType.ofName? name = some type) (h' : Text.sameLetters type'.name name = true) :
    type' = type := by
  have hname : Text.sameLetters type.name name = true :=
    List.find?_some (p := fun t : ScalarType => Text.sameLetters t.name name) h
  rw [Text.sameLetters_iff] at hname h'
  have hsame : ScalarType.ofName? type'.name = ScalarType.ofName? type.name := by
    simp only [ScalarType.ofName?, Text.sameLetters, h', hname]
  rw [ScalarType.ofName?_name, ScalarType.ofName?_name] at hsame
  exact Option.some.inj hsame

/-! ## Paths through schemas -/

namespace DataRequirement

/-- The segments of a path lead from a schema to a declared property of a kind. They lead on from
a reference, single or in a list; what follows a list of scalars does not matter. -/
inductive LeadsTo (look : Lookup) : Schema → List String → Kind → Prop
  | last {schema : Schema} {segment : String} {p : Property}
      (hp : schema.declared? segment = some p) : LeadsTo look schema [segment] p.kind
  | list {schema : Schema} {segment : String} {rest : List String} {p : Property}
      {type : ScalarType} (hp : schema.declared? segment = some p)
      (hkind : p.kind = .listOfScalar type) :
      LeadsTo look schema (segment :: rest) (.listOfScalar type)
  | through {schema related : Schema} {segment target : String} {rest : List String} {p : Property}
      {kind : Kind} (hp : schema.declared? segment = some p)
      (htarget : p.kind.target? = some target) (hrelated : look.require target = .ok related)
      (hrest : LeadsTo look related rest kind) : LeadsTo look schema (segment :: rest) kind

section Leading

variable {look : Lookup} {schema : Schema} {path : String}

theorem LeadsTo.exists_cons {segments : List String} {kind : Kind}
    (h : LeadsTo look schema segments kind) : ∃ segment rest, segments = segment :: rest := by
  cases h with
  | last _ => exact ⟨_, _, rfl⟩
  | list _ _ => exact ⟨_, _, rfl⟩
  | through _ _ _ _ => exact ⟨_, _, rfl⟩

/-- From a reference the type is read off the target, at the end of the path and behind it. -/
theorem typeAt_reference {segment target : String} {rest : List String} {p : Property}
    (hp : schema.declared? segment = some p) (htarget : p.kind.target? = some target) :
    typeAt look path schema (segment :: rest) = (do
      let related ← look.require target
      if rest.isEmpty then pure target else typeAt look path related rest) := by
  rw [typeAt, hp]
  dsimp only
  generalize p.kind = kind at htarget
  cases kind with
  | scalar type => cases htarget
  | listOfScalar type => cases htarget
  | reference key =>
      cases htarget
      rfl
  | listOfReference key =>
      cases htarget
      rfl

/-- What follows a property that refers to no schema is judged without looking anything up. -/
theorem typeAt_eq_of_target?_eq_none {look' : Lookup} {new old : Schema} {segment : String}
    {rest : List String} {p : Property} (hp' : new.declared? segment = some p)
    (hp : old.declared? segment = some p) (htarget : p.kind.target? = none) :
    typeAt look' path new (segment :: rest) = typeAt look path old (segment :: rest) := by
  rw [typeAt, typeAt, hp', hp]
  dsimp only
  generalize p.kind = kind at htarget
  cases kind with
  | scalar type => rfl
  | listOfScalar type => rfl
  | reference key => cases htarget
  | listOfReference key => cases htarget

/-- The type found along a path is the name of the kind that the path leads to. -/
theorem exists_leadsTo_of_typeAt {segments : List String} {name : String}
    (hsegments : segments ≠ []) (h : typeAt look path schema segments = .ok name) :
    ∃ kind, LeadsTo look schema segments kind ∧ kind.requiredName = name := by
  induction segments generalizing schema with
  | nil => exact absurd rfl hsegments
  | cons segment rest ih =>
      cases hp : schema.declared? segment with
      | none =>
          rw [typeAt, hp] at h
          cases h
      | some p =>
          cases hkind : p.kind.target? with
          | some target =>
              rw [typeAt_reference hp hkind] at h
              obtain ⟨related, hrelated, h⟩ := bind_eq_ok_iff.1 h
              cases rest with
              | nil =>
                  cases h
                  exact ⟨p.kind, .last hp, Kind.requiredName_of_target? hkind⟩
              | cons next rest =>
                  obtain ⟨kind, hleads, hname⟩ := ih (List.cons_ne_nil next rest) h
                  exact ⟨kind, .through hp hkind hrelated hleads, hname⟩
          | none =>
              rw [typeAt, hp] at h
              dsimp only at h
              split at h
              · rename_i type hscalar
                -- a scalar has to be the last segment
                cases rest with
                | nil =>
                    cases h
                    exact ⟨p.kind, .last hp, by rw [hscalar, Kind.requiredName]⟩
                | cons next rest => cases h
              · rename_i type hlist
                cases h
                exact ⟨_, .list hp hlist, rfl⟩
              · rename_i target hreference
                rw [hreference] at hkind
                cases hkind
              · rename_i target hreference
                rw [hreference] at hkind
                cases hkind

/-- A requirement that holds has a path that leads to a kind of the name asked for. -/
theorem exists_leadsTo_of_validate {root : String} {r : DataRequirement}
    (h : r.validate look root = .ok ()) :
    ∃ schema kind, look.require root = .ok schema ∧
      LeadsTo look schema (Text.segments r.path) kind ∧
      Text.sameLetters kind.requiredName r.type = true := by
  rw [validate] at h
  obtain ⟨schema, hschema, h⟩ := bind_eq_ok_iff.1 h
  obtain ⟨name, hname, h⟩ := bind_eq_ok_iff.1 h
  obtain ⟨kind, hleads, rfl⟩ := exists_leadsTo_of_typeAt (Text.segments_ne_nil r.path) hname
  refine ⟨schema, kind, hschema, hleads, ?_⟩
  split at h
  · rename_i hsame
    exact hsame
  · cases h

end Leading

end DataRequirement

/-! ## Paths through entities -/

/-- Where a walk along a path stops: the value that it reached, and the segments that are left. -/
structure PathStop where
  value : EntityValue
  left : List String

namespace PathStop

/-- The walk stopped at nothing, at a scalar of a type with the path used up, or at a list of
such scalars. -/
def HoldsType (type : ScalarType) : PathStop → Prop
  | ⟨.empty, _⟩ => True
  | ⟨.scalar x, left⟩ => x.type = type ∧ left = []
  | ⟨.list xs, _⟩ => ∀ x ∈ xs, x.type = type
  | ⟨.entity _, _⟩ | ⟨.entityList _, _⟩ => False

/-- The walk stopped at nothing, or with the path used up at entities of the schema with a key. -/
def HoldsEntities (key : String) : PathStop → Prop
  | ⟨.empty, _⟩ => True
  | ⟨.entity e, left⟩ => e.schemaKey = key ∧ left = []
  | ⟨.entityList es, left⟩ => (∀ e ∈ es, e.schemaKey = key) ∧ left = []
  | ⟨.scalar _, _⟩ | ⟨.list _, _⟩ => False

/-- The walk stopped at a value of a kind, and early only where the value is empty or a list of
scalars. -/
structure Fits (look : Lookup) (kind : Kind) (stop : PathStop) : Prop where
  conforms : stop.value.Conforms look kind
  used_up : stop.left = [] ∨ stop.value = .empty ∨ ∃ xs, stop.value = .list xs

variable {look : Lookup} {kind : Kind} {stop : PathStop}

theorem Fits.left_eq_nil (h : stop.Fits look kind) (hempty : stop.value ≠ .empty)
    (hlist : ∀ xs, stop.value ≠ .list xs) : stop.left = [] := by
  rcases h.used_up with hleft | hvalue | ⟨xs, hvalue⟩
  · exact hleft
  · exact absurd hvalue hempty
  · exact absurd hvalue (hlist xs)

/-- Values of a kind that is no reference are scalars of its type, alone or in a list. -/
theorem Fits.holdsType (h : stop.Fits look kind) {type : ScalarType} {name : String}
    (htype : ScalarType.ofName? name = some type) (htarget : kind.target? = none)
    (hname : Text.sameLetters kind.requiredName name = true) : stop.HoldsType type := by
  have hleft := h.left_eq_nil
  obtain ⟨v, left⟩ := stop
  cases h.conforms with
  | empty => trivial
  | scalar x => exact ⟨ScalarType.eq_of_sameLetters htype hname, hleft nofun nofun⟩
  | list hxs => exact fun x hx => (hxs x hx).trans (ScalarType.eq_of_sameLetters htype hname)
  | entity _ _ _ => cases htarget
  | entityList _ _ => cases htarget

/-- Values of a reference are entities of its target, alone or in a list. -/
theorem Fits.holdsEntities (h : stop.Fits look kind) (hlook : look.Lawful) {target : String}
    (htarget : kind.target? = some target) : stop.HoldsEntities target := by
  have hkey : ∀ e, (EntityValue.entity e).Conforms look (.reference target) →
      e.schemaKey = target := by
    intro e he
    cases he with
    | entity hschema hshape _ =>
        rw [hshape.schema_key]
        exact hlook.own_key _ _ hschema
  have hleft := h.left_eq_nil
  obtain ⟨v, left⟩ := stop
  cases h.conforms with
  | empty => trivial
  | scalar x => cases htarget
  | list hxs => cases htarget
  | entity hschema hshape hvalues =>
      cases htarget
      exact ⟨hkey _ (.entity hschema hshape hvalues), hleft nofun nofun⟩
  | entityList hschema hes =>
      cases htarget
      exact ⟨fun e he => hkey e (hes e he), hleft nofun nofun⟩

end PathStop

namespace EntityValue

/-- Where the walks along some segments stop. They go into entities, and into every member of a
list of them; they stop where there is nothing to go into. -/
def stops : List String → EntityValue → List PathStop
  | [], v => [⟨v, []⟩]
  | segment :: rest, v =>
      let enter (e : Entity) : List PathStop :=
        match e.value? segment with
        | some inner => stops rest inner
        | none => [⟨.entity e, segment :: rest⟩]
      match v with
      | .entity e => enter e
      | .entityList es => es.flatMap enter
      | .empty | .scalar _ | .list _ => [⟨v, segment :: rest⟩]

theorem stops_empty (segments : List String) : stops segments .empty = [⟨.empty, segments⟩] := by
  cases segments with
  | nil => rfl
  | cons segment rest => rfl

theorem stops_list (segments : List String) (xs : List ScalarValue) :
    stops segments (.list xs) = [⟨.list xs, segments⟩] := by
  cases segments with
  | nil => rfl
  | cons segment rest => rfl

theorem stops_entity {e : Entity} {segment : String} {inner : EntityValue}
    (h : e.value? segment = some inner) (rest : List String) :
    stops (segment :: rest) (.entity e) = stops rest inner := by
  simp only [stops, h]

/-- A walk stops in a list of entities where it stops in one of them. -/
theorem mem_stops_entityList_iff {segment : String} {rest : List String} {es : List Entity}
    {stop : PathStop} :
    stop ∈ stops (segment :: rest) (.entityList es) ↔
      ∃ e ∈ es, stop ∈ stops (segment :: rest) (.entity e) := by
  simp only [stops]
  exact List.mem_flatMap

end EntityValue

/-- A declared property of a schema has a value in each entity that fits it. -/
theorem Entity.Conforms.exists_declared {look : Lookup} {schema : Schema} {e : Entity}
    (h : e.Conforms look schema) {name : String} {p : Property}
    (hp : schema.declared? name = some p) :
    ∃ v, e.value? name = some v ∧ v.Conforms look p.kind := by
  have hmem : p ∈ schema.properties := List.mem_of_find?_eq_some hp
  have hname : p.name = name := by simpa using List.find?_some hp
  obtain ⟨v, hv⟩ := h.shape.exists_value hmem
  exact ⟨v, hname ▸ hv, h.values p hmem v hv⟩

namespace DataRequirement

open EntityValue (stops)

variable {look : Lookup} {schema : Schema}

/-- Along a path that leads to a kind, every walk through an entity that fits the schema stops at
a value of the kind. -/
theorem LeadsTo.fits_of_mem_stops {segments : List String} {kind : Kind}
    (h : LeadsTo look schema segments kind) {e : Entity} (he : e.Conforms look schema) :
    ∀ stop ∈ stops segments (.entity e), stop.Fits look kind := by
  induction h generalizing e with
  | last hp =>
      obtain ⟨v, hv, hconforms⟩ := he.exists_declared hp
      intro stop hstop
      rw [EntityValue.stops_entity hv, stops, List.mem_singleton] at hstop
      rw [hstop]
      exact ⟨hconforms, Or.inl rfl⟩
  | list hp hkind =>
      obtain ⟨v, hv, hconforms⟩ := he.exists_declared hp
      rw [hkind] at hconforms
      intro stop hstop
      rw [EntityValue.stops_entity hv] at hstop
      cases hconforms with
      | empty =>
          rw [EntityValue.stops_empty, List.mem_singleton] at hstop
          rw [hstop]
          exact ⟨.empty _, Or.inr (Or.inl rfl)⟩
      | list htype =>
          rw [EntityValue.stops_list, List.mem_singleton] at hstop
          rw [hstop]
          exact ⟨.list htype, Or.inr (Or.inr ⟨_, rfl⟩)⟩
  | @through schema related segment target rest p kind hp htarget hrelated hrest ih =>
      obtain ⟨v, hv, hconforms⟩ := he.exists_declared hp
      intro stop hstop
      rw [EntityValue.stops_entity hv] at hstop
      -- the entities in the value fit the schema that the path goes on with
      have hinner : ∀ inner, (EntityValue.entity inner).Conforms look (.reference target) →
          inner.Conforms look related := by
        intro inner hfits
        cases hfits with
        | entity hschema hshape hvalues =>
            cases hrelated.symm.trans hschema
            exact ⟨hshape, hvalues⟩
      generalize p.kind = kind' at hconforms htarget
      cases hconforms with
      | empty =>
          rw [EntityValue.stops_empty, List.mem_singleton] at hstop
          rw [hstop]
          exact ⟨.empty _, Or.inr (Or.inl rfl)⟩
      | scalar x => cases htarget
      | list htype => cases htarget
      | entity hschema hshape hvalues =>
          cases htarget
          exact ih (hinner _ (.entity hschema hshape hvalues)) stop hstop
      | entityList hschema hes =>
          cases htarget
          obtain ⟨next, others, rfl⟩ := hrest.exists_cons
          obtain ⟨inner, hmem, hstop⟩ := EntityValue.mem_stops_entityList_iff.1 hstop
          exact ih (hinner inner (hes inner hmem)) stop hstop

end DataRequirement

namespace Catalog

open DataRequirement (LeadsTo)
open EntityValue (stops)

/-- After calls by the rules, let a requirement of a scalar type hold for a root. Its path leads
to a property of some kind. If that is no reference, every walk along the path through an entity
of the root stops at nothing, at a scalar of the type or at a list of such scalars. If it is a
reference, its target is the name asked for, up to case, and every walk stops at nothing or at
entities of the target. -/
theorem satisfied_requirement (rule : KeyRule) {calls : List Call}
    (hcalls : ∀ call ∈ calls, call.checked = true) {root : String} {r : DataRequirement}
    {type : ScalarType} :
    let c := (empty rule .none).run calls
    let segments := Text.segments r.path
    ScalarType.ofName? r.type = some type → r.validate c.lookup root = .ok () →
      ∃ schema kind, c.store.get? root = some schema ∧ LeadsTo c.lookup schema segments kind ∧
        (∀ target, kind.target? = some target → Text.sameLetters target r.type = true) ∧
        ∀ payload e, Entity.buildFor c.lookup root payload = .ok e →
          ∀ stop ∈ stops segments (.entity e),
            (kind.target? = none → stop.HoldsType type) ∧
            ∀ target, kind.target? = some target → stop.HoldsEntities target := by
  intro c segments htype hvalid
  obtain ⟨hlook, hfound⟩ := lawful_lookup_run rule hcalls
  obtain ⟨schema, kind, hschema, hleads, hname⟩ := DataRequirement.exists_leadsTo_of_validate hvalid
  refine ⟨schema, kind, (hfound root schema).2 hschema, hleads, ?_, ?_⟩
  · intro target htarget
    rwa [Kind.requiredName_of_target? htarget] at hname
  · intro payload e hbuild stop hstop
    obtain ⟨schema', hschema', hbuild⟩ := bind_eq_ok_iff.1 hbuild
    cases hschema.symm.trans hschema'
    have hconforms := ((Entity.build_eq_ok_iff_readFrom hlook hschema).1 hbuild).conforms
    have hfits := hleads.fits_of_mem_stops hconforms stop hstop
    exact ⟨fun htarget => hfits.holdsType htype htarget hname,
      fun target htarget => hfits.holdsEntities hlook htarget⟩

/-- The path goes through a list of addresses and on behind a list of scalars; the second address
has no scores. -/
theorem satisfied_requirement_through_lists :
    let calls : List Call :=
      [.save ⟨none, "Address", "", none, [⟨"scores", .listOfScalar .number, []⟩], [], 0⟩,
        .save ⟨none, "Person", "", none, [⟨"former", .listOfReference "Address", []⟩], [], 0⟩]
    let r : DataRequirement := ⟨"former.scores.best", "NUMBER", []⟩
    let payload : List (String × Json) :=
      [("former", .array [.object [("scores", .string "0")], .object []])]
    let e : Entity := ⟨"Person", [("former", .entityList
      [⟨"Address", [("scores", .list [.number (.zero false)])]⟩,
        ⟨"Address", [("scores", .empty)]⟩])]⟩
    let c := (empty .default .none).run calls
    let ends := stops (Text.segments r.path) (.entity e)
    (∀ call ∈ calls, call.checked = true) ∧ ScalarType.ofName? r.type = some .number ∧
      r.validate c.lookup "Person" = .ok () ∧
      Entity.buildFor c.lookup "Person" payload = .ok e ∧
      ends = [⟨.list [.number (.zero false)], ["best"]⟩, ⟨.empty, ["best"]⟩] ∧
      ∀ stop ∈ ends, stop.HoldsType .number := by
  intro calls r payload e c ends
  have hcalls : ∀ call ∈ calls, call.checked = true := by
    simp [calls, Call.checked]
  have htype : ScalarType.ofName? r.type = some .number := by decide
  have hvalid : r.validate c.lookup "Person" = .ok () := by
    subst c calls r
    with_unfolding_all rfl
  have hbuild : Entity.buildFor c.lookup "Person" payload = .ok e := by
    subst c calls payload e
    with_unfolding_all rfl
  have hsegments : Text.segments r.path = ["former", "scores", "best"] := by decide +kernel
  have hends : ends = [⟨.list [.number (.zero false)], ["best"]⟩, ⟨.empty, ["best"]⟩] := by
    rw [show ends = stops (Text.segments r.path) (.entity e) from rfl, hsegments]
    rfl
  refine ⟨hcalls, htype, hvalid, hbuild, hends, ?_⟩
  obtain ⟨schema, kind, -, -, -, hstops⟩ := satisfied_requirement .default hcalls htype hvalid
  have hend : ∀ stop ∈ ends, _ := hstops payload e hbuild
  -- the first walk stops at scalars, so the path ends on no reference
  have htarget : kind.target? = none := by
    cases hkind : kind.target? with
    | none => rfl
    | some target =>
        have hfirst := hend ⟨.list [.number (.zero false)], ["best"]⟩ (by simp [hends])
        exact absurd (hfirst.2 target hkind) id
  exact fun stop hstop => (hend stop hstop).1 htarget

/-- A schema has the name of a scalar type for its key. A requirement of the type is met by a
reference to it, and the walk stops at an entity. -/
theorem requirement_met_by_entity :
    let calls : List Call :=
      [.save ⟨none, "Document", "", none, [⟨"number", .scalar .string, []⟩], [], 0⟩,
        .save ⟨none, "Person", "", none, [⟨"passport", .reference "Document", []⟩], [], 0⟩]
    let r : DataRequirement := ⟨"passport", "Document", []⟩
    let payload : List (String × Json) := [("passport", .object [("number", .string "X1")])]
    let passport : Entity := ⟨"Document", [("number", .scalar (.string "X1"))]⟩
    let e : Entity := ⟨"Person", [("passport", .entity passport)]⟩
    let c := (empty .default .none).run calls
    (∀ call ∈ calls, call.checked = true) ∧ ScalarType.ofName? r.type = some .document ∧
      r.validate c.lookup "Person" = .ok () ∧
      Entity.buildFor c.lookup "Person" payload = .ok e ∧
      ⟨.entity passport, []⟩ ∈ stops (Text.segments r.path) (.entity e) ∧
      ¬ PathStop.HoldsType .document ⟨.entity passport, []⟩ := by
  intro calls r payload passport e c
  have hsegments : Text.segments r.path = ["passport"] := by decide +kernel
  refine ⟨by simp [calls, Call.checked], by decide, ?_, ?_, ?_, id⟩
  · subst c calls r
    with_unfolding_all rfl
  · subst c calls payload e passport
    with_unfolding_all rfl
  · rw [hsegments]
    exact List.mem_singleton.2 rfl

end Catalog

end SchemaCatalog
