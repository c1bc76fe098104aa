import Mathlib.Data.List.Induction
import SchemaCatalog.Proofs.Keyed
import SchemaCatalog.Settings.Layers

/-!
# What a layer does to one setting

A setting is an entry of a section (`setting?`). A layer that is put over others does one of three
things to it: it leaves it, or gives it a value of its own, or, by a path that goes on behind the
setting, makes it a table or a list, at least where nothing was set (`Effect`). No setting can be
read from a table or a list. So if every layer can be read alone, a setting of the merged layers
is not set, or is just what one of them sets (`setting?_merged`).

Sections that hold nothing but plain values override a setting if they have it, and otherwise
let the layers below show through (`setting?_putOver`).
-/

set_option autoImplicit false

namespace SchemaCatalog.Layers

open SettingValue

/-- The value of a setting, an entry in the table of a section. -/
def setting? (all : SettingValue) (part name : String) : Option SettingValue :=
  Keyed.get? (all.get part).entries name

/-- The value of a setting that has parts itself. -/
inductive Compound : Option SettingValue → Prop where
  | list (items : List SettingValue) : Compound (some (.list items))
  | table (entries : List (String × SettingValue)) : Compound (some (.table entries))

/-- What a layer can do to a setting. -/
inductive Effect : (Option SettingValue → Option SettingValue) → Prop where
  | keep : Effect id
  | give (value : Option SettingValue) : Effect fun _ => value
  | divide {f : Option SettingValue → Option SettingValue}
      (hkept : ∀ old, f old = old ∨ Compound (f old)) (hnone : Compound (f none)) : Effect f

/-- What two layers do, one after the other, is one of these things too. -/
theorem Effect.comp {f g : Option SettingValue → Option SettingValue} (hg : Effect g)
    (hf : Effect f) : Effect (g ∘ f) := by
  cases hg with
  | keep => exact hf
  | give value => exact Effect.give value
  | divide hkept hnone =>
      cases hf with
      | keep => exact Effect.divide hkept hnone
      | give value => exact Effect.give (g value)
      | divide hkept' hnone' =>
          refine Effect.divide (fun old => ?_) ?_
          · rcases hkept (f old) with hsame | hcompound
            · rw [Function.comp_apply, hsame]
              exact hkept' old
            · exact Or.inr hcompound
          · rcases hkept (f none) with hsame | hcompound
            · rw [Function.comp_apply, hsame]
              exact hnone'
            · exact hcompound

/-! ## Values put at the end of paths -/

theorem exists_table_overAll (old : SettingValue) (e : String × SettingValue)
    (rest : List (String × SettingValue)) :
    ∃ entries, overAll (overEntry old e) rest = .table entries := by
  induction rest generalizing old e with
  | nil =>
      rw [overAll, overEntry]
      exact ⟨_, rfl⟩
  | cons next rest ih => exact ih (overEntry old e) next

/-- A value put over a setting. -/
theorem effect_mergeOver (v : SettingValue) :
    Effect fun old => some ((old.getD .nothing).mergeOver v) := by
  cases v with
  | nothing => exact Effect.give (some .nothing)
  | text s => exact Effect.give (some (.text s))
  | whole i => exact Effect.give (some (.whole i))
  | number x => exact Effect.give (some (.number x))
  | truth b => exact Effect.give (some (.truth b))
  | list items => exact Effect.give (some (.list items))
  | table entries =>
      cases entries with
      | nil =>
          -- an empty table stays hidden behind whatever is there
          refine Effect.divide (fun old => ?_) (Compound.table [])
          rcases old with - | (- | _ | _ | _ | _ | _ | _)
          · exact Or.inr (Compound.table [])
          · exact Or.inr (Compound.table [])
          all_goals exact Or.inl rfl
      | cons e rest =>
          have hcompound : ∀ old : Option SettingValue,
              Compound (some ((old.getD .nothing).mergeOver (.table (e :: rest)))) := by
            intro old
            obtain ⟨entries, heq⟩ := exists_table_overAll (old.getD .nothing) e rest
            rw [mergeOver, heq]
            exact Compound.table entries
          exact Effect.divide (fun old => Or.inr (hcompound old)) (hcompound none)

/-- A value put at the end of a path that starts at a setting. -/
theorem effect_place (v : SettingValue) (path : List PathStep) :
    Effect fun old => some (v.place path (old.getD .nothing)) := by
  have hdivide : ∀ step rest, path = step :: rest → ∀ old : Option SettingValue,
      Compound (some (v.place path (old.getD .nothing))) := by
    rintro step rest rfl old
    cases step with
    | entry name => exact Compound.table _
    | item i =>
        cases rest with
        | nil => exact Compound.list _
        | cons next rest => exact Compound.list _
  cases path with
  | nil => exact effect_mergeOver v
  | cons step rest =>
      exact Effect.divide (fun old => Or.inr (hdivide step rest rfl old))
        (hdivide step rest rfl none)

/-! ## Layers -/

variable (part name : String)

/-- What one entry does to an entry of the table that it is merged into. -/
theorem exists_effect_overEntry (e : String × SettingValue) :
    ∃ f, Effect f ∧ ∀ old : SettingValue,
      Keyed.get? (overEntry old e).entries name = f (Keyed.get? old.entries name) := by
  obtain ⟨key, v⟩ := e
  by_cases hkey : name = PathStep.lowerName key
  · refine ⟨_, effect_mergeOver v, fun old => ?_⟩
    subst hkey
    exact Keyed.get?_insert_self _ _ _
  · exact ⟨id, Effect.keep, fun old => Keyed.get?_insert_of_ne _ _ hkey⟩

theorem exists_effect_overAll (entries : List (String × SettingValue)) :
    ∃ f, Effect f ∧ ∀ old : SettingValue,
      Keyed.get? (overAll old entries).entries name = f (Keyed.get? old.entries name) := by
  induction entries with
  | nil => exact ⟨id, Effect.keep, fun old => rfl⟩
  | cons e rest ih =>
      obtain ⟨f, hf, heach⟩ := exists_effect_overEntry name e
      obtain ⟨g, hg, hrest⟩ := ih
      refine ⟨g ∘ f, hg.comp hf, fun old => ?_⟩
      rw [overAll, hrest, heach]
      rfl

/-- What a value put over a section does to a setting of the section. -/
theorem exists_effect_section (v : SettingValue) :
    ∃ f, Effect f ∧ ∀ old : SettingValue,
      Keyed.get? (old.mergeOver v).entries name = f (Keyed.get? old.entries name) := by
  cases v with
  | table entries =>
      cases entries with
      | nil =>
          refine ⟨id, Effect.keep, fun old => ?_⟩
          cases old with
          | nothing => rfl
          | _ => rfl
      | cons e rest => exact exists_effect_overAll name (e :: rest)
  | _ => exact ⟨fun _ => none, Effect.give none, fun old => rfl⟩

/-- What a value put at the end of a path behind a section does to a setting of the section. -/
theorem exists_effect_path (v : SettingValue) (path : List PathStep) :
    ∃ f, Effect f ∧ ∀ old : SettingValue,
      Keyed.get? (v.place path old).entries name = f (Keyed.get? old.entries name) := by
  cases path with
  | nil => exact exists_effect_section name v
  | cons step rest =>
      cases step with
      | entry key =>
          by_cases hkey : name = PathStep.lowerName key
          · refine ⟨_, effect_place v rest, fun old => ?_⟩
            subst hkey
            exact Keyed.get?_insert_self _ _ _
          · exact ⟨id, Effect.keep, fun old => Keyed.get?_insert_of_ne _ _ hkey⟩
      | item i =>
          -- a list in place of the section has no settings
          refine ⟨fun _ => none, Effect.give none, fun old => ?_⟩
          cases rest with
          | nil => rfl
          | cons next rest => rfl

/-- A key leads to a section or to something in it. -/
theorem exists_ofKey (key : String) :
    ∃ first rest, PathStep.ofKey key = .entry first :: rest := by
  rw [PathStep.ofKey]
  split
  · exact ⟨_, _, rfl⟩
  · split
    · exact ⟨_, _, rfl⟩
    · exact ⟨_, _, rfl⟩

theorem setting?_place (v : SettingValue) (first : String) (rest : List PathStep)
    (all : SettingValue) :
    setting? (v.place (.entry first :: rest) all) part name =
      if part = PathStep.lowerName first then
        Keyed.get? (v.place rest (all.get part)).entries name
      else setting? all part name := by
  have hget : (v.place (.entry first :: rest) all).get part =
      if part = PathStep.lowerName first then v.place rest (all.get part) else all.get part := by
    change (Keyed.get? (Keyed.insert all.entries (PathStep.lowerName first) _) part).getD _ = _
    rw [Keyed.get?_insert]
    split
    · rename_i hpart
      rw [hpart]
      rfl
    · rfl
  rw [setting?, hget]
  split
  · rfl
  · rfl

/-- What a layer does to a setting. -/
theorem exists_effect_putOver (layer : Layer) :
    ∃ f, Effect f ∧ ∀ below : SettingValue,
      setting? (putOver below layer) part name = f (setting? below part name) := by
  induction layer with
  | nil => exact ⟨id, Effect.keep, fun below => rfl⟩
  | cons e rest ih =>
      obtain ⟨g, hg, hrest⟩ := ih
      obtain ⟨first, path, hkey⟩ := exists_ofKey e.1
      by_cases hpart : part = PathStep.lowerName first
      · obtain ⟨f, hf, heach⟩ := exists_effect_path name e.2 path
        refine ⟨g ∘ f, hg.comp hf, fun below => ?_⟩
        rw [putOver, List.foldl_cons, ← putOver, hrest, hkey, setting?_place, if_pos hpart, heach]
        rfl
      · refine ⟨g, hg, fun below => ?_⟩
        rw [putOver, List.foldl_cons, ← putOver, hrest, hkey, setting?_place, if_neg hpart]

theorem merged_append (layers : List Layer) (layer : Layer) :
    merged (layers ++ [layer]) = putOver (merged layers) layer := by
  rw [merged, merged, List.foldl_append]
  rfl

/-- Where no layer alone divides a setting, the merged layers do not set it, or one of the
layers sets it to just what it is. -/
theorem setting?_merged {layers : List Layer}
    (halone : ∀ layer ∈ layers, ¬Compound (setting? (merged [layer]) part name)) :
    setting? (merged layers) part name = none ∨
      ∃ layer ∈ layers, setting? (merged layers) part name = setting? (merged [layer]) part name := by
  induction layers using List.reverseRecOn with
  | nil => exact Or.inl rfl
  | append_singleton layers layer ih =>
      have hbelow := ih fun l hl => halone l (List.mem_append_left _ hl)
      have hlayer := halone layer (List.mem_append_right _ List.mem_cons_self)
      obtain ⟨f, hf, heach⟩ := exists_effect_putOver part name layer
      have hmerged := heach (merged layers)
      have hself : setting? (merged [layer]) part name = f none := heach (.table [])
      rw [← merged_append] at hmerged
      -- what the layer does over the others is told apart by what it does alone
      cases hf with
      | keep =>
          rw [hmerged, id]
          refine hbelow.imp_right ?_
          rintro ⟨l, hl, heq⟩
          exact ⟨l, List.mem_append_left _ hl, heq⟩
      | give value =>
          exact Or.inr ⟨layer, List.mem_append_right _ List.mem_cons_self, hmerged.trans hself.symm⟩
      | divide hkept hnone =>
          rw [hself] at hlayer
          exact absurd hnone hlayer

/-! ## Sections of plain values -/

/-- Entries with names in lower case, none of them twice, and values that replace what is
below them. -/
structure Plain (entries : List (String × SettingValue)) : Prop where
  nodup : (Keyed.keys entries).Nodup
  lower : ∀ e ∈ entries, PathStep.lowerName e.1 = e.1
  replaces : ∀ e ∈ entries, ∀ old : SettingValue, old.mergeOver e.2 = e.2

theorem Plain.tail {e : String × SettingValue} {rest : List (String × SettingValue)}
    (h : Plain (e :: rest)) : Plain rest :=
  ⟨(List.nodup_cons.1 h.nodup).2, fun e' he => h.lower e' (List.mem_cons_of_mem _ he),
    fun e' he => h.replaces e' (List.mem_cons_of_mem _ he)⟩

/-- Plain entries win, one by one. -/
theorem get?_overAll {entries : List (String × SettingValue)} (h : Plain entries)
    (old : SettingValue) :
    Keyed.get? (overAll old entries).entries name =
      (Keyed.get? entries name).or (Keyed.get? old.entries name) := by
  induction entries generalizing old with
  | nil => rfl
  | cons e rest ih =>
      obtain ⟨key, v⟩ := e
      have hlower : PathStep.lowerName key = key := h.lower _ List.mem_cons_self
      have hvalue : ∀ old : SettingValue, old.mergeOver v = v := h.replaces _ List.mem_cons_self
      have hover : (overEntry old (key, v)).entries = Keyed.insert old.entries key v := by
        rw [overEntry, hlower, hvalue]
        rfl
      rw [overAll, ih h.tail, hover, Keyed.get?_insert, Keyed.get?]
      by_cases hname : key = name
      · -- the name is found at the front, and nowhere behind it
        have hrest : Keyed.get? rest name = none := by
          rw [Keyed.get?_eq_none_iff, ← hname]
          exact (List.nodup_cons.1 h.nodup).1
        rw [if_pos hname, if_pos hname.symm, hrest]
        rfl
      · rw [if_neg hname, if_neg (Ne.symm hname)]

/-- A layer of sections, each under its own name and with some plain entries. -/
structure Sections (layer : Layer) : Prop where
  nodup : (Keyed.keys layer).Nodup
  own : ∀ e ∈ layer, PathStep.ofKey e.1 = [.entry e.1] ∧ PathStep.lowerName e.1 = e.1
  plain : ∀ e ∈ layer, ∃ first rest, e.2 = .table (first :: rest) ∧ Plain (first :: rest)

theorem Sections.tail {e : String × SettingValue} {rest : Layer} (h : Sections (e :: rest)) :
    Sections rest :=
  ⟨(List.nodup_cons.1 h.nodup).2, fun e' he => h.own e' (List.mem_cons_of_mem _ he),
    fun e' he => h.plain e' (List.mem_cons_of_mem _ he)⟩

/-- A section that a layer has becomes a table of the merged layers; the others stay. -/
theorem get?_putOver {layer : Layer} (h : Sections layer) (below : SettingValue) :
    Keyed.get? (putOver below layer).entries part =
      match Keyed.get? layer part with
      | some v => some ((below.get part).mergeOver v)
      | none => Keyed.get? below.entries part := by
  induction layer generalizing below with
  | nil => rfl
  | cons e rest ih =>
      obtain ⟨key, v⟩ := e
      obtain ⟨hkey, hlower⟩ := h.own _ List.mem_cons_self
      have hplace : v.place (PathStep.ofKey key) below =
          .table (Keyed.insert below.entries key ((below.get key).mergeOver v)) := by
        rw [hkey, SettingValue.place, hlower]
        rfl
      rw [putOver, List.foldl_cons, ← putOver, hplace, ih h.tail, Keyed.get?]
      by_cases hpart : key = part
      · have hrest : Keyed.get? rest part = none := by
          rw [Keyed.get?_eq_none_iff, ← hpart]
          exact (List.nodup_cons.1 h.nodup).1
        rw [if_pos hpart, hrest, ← hpart]
        exact Keyed.get?_insert_self _ _ _
      · have hother : Keyed.get? (Keyed.insert below.entries key ((below.get key).mergeOver v))
            part = Keyed.get? below.entries part :=
          Keyed.get?_insert_of_ne _ _ (Ne.symm hpart)
        have hget : (SettingValue.table
            (Keyed.insert below.entries key ((below.get key).mergeOver v))).get part =
              below.get part :=
          congrArg (fun found => found.getD .nothing) hother
        rw [if_neg hpart, hget]
        cases Keyed.get? rest part with
        | none => exact hother
        | some v => rfl

/-- A setting that is set in a section of the layer is the one of the layer; every other one
shows through. -/
theorem setting?_putOver {layer : Layer} (h : Sections layer) (below : SettingValue) :
    setting? (putOver below layer) part name =
      ((Keyed.get? layer part).bind fun v => Keyed.get? v.entries name).or
        (setting? below part name) := by
  rw [setting?, SettingValue.get, get?_putOver part h]
  cases hfound : Keyed.get? layer part with
  | none => rfl
  | some v =>
      obtain ⟨first, rest, hv, hplain⟩ := h.plain _ (Keyed.mem_of_get?_eq_some hfound)
      obtain rfl : v = .table (first :: rest) := hv
      exact get?_overAll name hplain (below.get part)

/-- Where the layer has a section, the merged layers have a table. -/
theorem sectionOf_putOver {layer : Layer} (h : Sections layer) (below : SettingValue)
    {fields : List String} (hpart : part ∈ Keyed.keys layer) :
    sectionOf (putOver below layer) part fields = .ok ((putOver below layer).get part).entries := by
  obtain ⟨⟨key, v⟩, hmem, rfl⟩ := List.mem_map.1 hpart
  obtain ⟨first, rest, rfl, -⟩ := h.plain _ hmem
  obtain ⟨entries, htable⟩ := exists_table_overAll (below.get key) first rest
  have hfound : Keyed.get? (putOver below layer).entries key = some (.table entries) := by
    rw [get?_putOver key h, Keyed.get?_eq_some_of_mem h.nodup hmem]
    exact congrArg some htable
  change sectionOf (putOver below layer) key fields = _
  rw [sectionOf, SettingValue.get, hfound]
  rfl

end SchemaCatalog.Layers
