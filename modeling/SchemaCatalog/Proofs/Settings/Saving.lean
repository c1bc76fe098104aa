import SchemaCatalog.Proofs.Disk.Writing
import SchemaCatalog.Proofs.Results
import SchemaCatalog.Proofs.Settings.Layering
import SchemaCatalog.Proofs.Settings.Written

/-!
# Saved settings

Settings that were saved are the layer on top when they are loaded again
(`requiredLayer_saved`), so all that is set in them wins over every other file
(`settings_putOver_layer`). A directory that is not set has no line in the file, and then the one
of the layers below shows through: none, or what one of these files sets alone
(`inheritedDir_cases`). A file whose name does not end in the extension of the format is saved but
not loaded.
-/

set_option autoImplicit false

namespace SchemaCatalog.Settings

open Layers

/-! ## The layer of saved settings -/

/-- Each section is found under its own name. -/
theorem ofKey_section : ∀ part ∈ layout.fields,
    PathStep.ofKey part = [.entry part] ∧ PathStep.lowerName part = part := by
  decide

theorem plain_catalog (s : CatalogSettings) :
    Plain (("key_pattern", .text s.keyPattern) ::
      (s.schemaDir.map fun dir => ("schema_dir", .text dir)).toList) := by
  have hpattern : PathStep.lowerName "key_pattern" = "key_pattern" := by decide
  have hdir : PathStep.lowerName "schema_dir" = "schema_dir" := by decide
  obtain ⟨pattern, dir⟩ := s
  cases dir with
  | none => exact ⟨List.nodup_singleton _, by simpa using hpattern, by simp [SettingValue.mergeOver]⟩
  | some dir =>
      exact ⟨show ["key_pattern", "schema_dir"].Nodup by decide,
        by simpa using ⟨hpattern, hdir⟩, by simp [SettingValue.mergeOver]⟩

theorem plain_validation (flag : Bool) :
    Plain [("suppress_hidden_list_errors", .truth flag)] := by
  have hflag : PathStep.lowerName "suppress_hidden_list_errors" =
      "suppress_hidden_list_errors" := by decide
  exact ⟨List.nodup_singleton _, by simpa using hflag, by simp [SettingValue.mergeOver]⟩

theorem plain_logging (filter : String) : Plain [("filter", .text filter)] := by
  have hfilter : PathStep.lowerName "filter" = "filter" := by decide
  exact ⟨List.nodup_singleton _, by simpa using hfilter, by simp [SettingValue.mergeOver]⟩

theorem sections_layer (c : Settings) : Sections c.layer where
  nodup := show layout.fields.Nodup by decide
  own := by
    intro e he
    exact ofKey_section e.1 (List.mem_map.2 ⟨e, he, rfl⟩)
  plain := by
    simp only [layer, List.forall_mem_cons]
    exact ⟨⟨_, _, rfl, plain_catalog c.registry⟩,
      ⟨_, _, rfl, plain_validation c.validation.suppressHiddenListErrors⟩,
      ⟨_, _, rfl, plain_logging c.logging.filter⟩, List.forall_mem_nil _⟩

/-! ## Reading merged layers -/

/-- The directory of definitions that layers leave to settings over them that set none. -/
def inheritedDir (below : SettingValue) : Except SettingsError (Option String) :=
  (setting? below "registry" "schema_dir").elim (.ok none) (optionalText "schema_dir")

/-- A field of the table of a section is read from its entry. -/
theorem field_entries {α : Type} (all : SettingValue) (part name : String)
    (read : String → SettingValue → Except SettingsError α) (default : α) :
    field (all.get part).entries name read default =
      (setting? all part name).elim (.ok default) (read name) := by
  rw [field, setting?]
  cases Keyed.get? (all.get part).entries name with
  | none => rfl
  | some v => rfl

/-- What is set in the settings on top is read from them. -/
theorem field_putOver_layer {α : Type} (c : Settings) (below : SettingValue) (part name : String)
    (v : SettingValue) (read : String → SettingValue → Except SettingsError α) (default : α)
    (hset : ((Keyed.get? c.layer part).bind fun t => Keyed.get? t.entries name) = some v) :
    field ((putOver below c.layer).get part).entries name read default = read name v := by
  rw [field_entries, setting?_putOver part name (sections_layer c), hset]
  rfl

/-- Over whatever lies below, settings are read as they are; only a directory that they do not
set is the one from below. -/
theorem settings_putOver_layer (c : Settings) {below : SettingValue} {dir : Option String}
    (hbelow : inheritedDir below = .ok dir) :
    settings (putOver below c.layer) =
      .ok { c with registry.schemaDir := c.registry.schemaDir.or dir } := by
  have hpattern : field ((putOver below c.layer).get "registry").entries "key_pattern" text
      KeyRule.defaultText = .ok c.registry.keyPattern :=
    field_putOver_layer c below "registry" "key_pattern" (.text c.registry.keyPattern) text _ rfl
  have hdir : field ((putOver below c.layer).get "registry").entries "schema_dir" optionalText
      none = .ok (c.registry.schemaDir.or dir) := by
    obtain ⟨⟨pattern, own⟩, validation, logging⟩ := c
    cases own with
    | none =>
        rw [field_entries, setting?_putOver "registry" "schema_dir" (sections_layer _)]
        exact hbelow
    | some own =>
        exact field_putOver_layer _ below "registry" "schema_dir" (.text own) optionalText _ rfl
  have hflag : field ((putOver below c.layer).get "validation").entries
      "suppress_hidden_list_errors" bool true = .ok c.validation.suppressHiddenListErrors :=
    field_putOver_layer c below "validation" "suppress_hidden_list_errors"
      (.truth c.validation.suppressHiddenListErrors) bool _ rfl
  have hfilter : field ((putOver below c.layer).get "logging").entries "filter" text "info" =
      .ok c.logging.filter :=
    field_putOver_layer c below "logging" "filter" (.text c.logging.filter) text _ rfl
  have hsection : ∀ part ∈ layout.fields, ∀ fields,
      sectionOf (putOver below c.layer) part fields =
        .ok ((putOver below c.layer).get part).entries :=
    fun part hpart fields => sectionOf_putOver part (sections_layer c) below hpart
  rw [settings, hsection "registry" (by decide), hsection "validation" (by decide),
    hsection "logging" (by decide)]
  simp only [bind, Except.bind, hpattern, hdir, hflag, hfilter]
  rfl

/-! ## Layers that can be read alone -/

/-- A section is read from its table, or has no entries. -/
theorem entries_of_sectionOf {all : SettingValue} {part : String} {fields : List String}
    {entries : Layer} (h : sectionOf all part fields = .ok entries) :
    (all.get part).entries = [] ∨ (all.get part).entries = entries := by
  rw [sectionOf] at h
  rw [SettingValue.get]
  split at h
  · rename_i hnone
    rw [hnone]
    exact Or.inl rfl
  · rename_i hfound
    rw [hfound]
    cases h
    exact Or.inr rfl
  · rename_i hfound
    rw [hfound]
    exact Or.inl rfl
  · cases h

/-- Settings that can be read have the directory of its entry, if there is such an entry. -/
theorem inheritedDir_of_settings {all : SettingValue} {s : Settings} (h : settings all = .ok s) :
    setting? all "registry" "schema_dir" = none ∨ inheritedDir all = .ok s.registry.schemaDir := by
  obtain ⟨registry, hregistry, h⟩ := bind_eq_ok_iff.1 h
  obtain ⟨pattern, -, h⟩ := bind_eq_ok_iff.1 h
  obtain ⟨dir, hdir, h⟩ := bind_eq_ok_iff.1 h
  obtain ⟨validation, -, h⟩ := bind_eq_ok_iff.1 h
  obtain ⟨flag, -, h⟩ := bind_eq_ok_iff.1 h
  obtain ⟨logging, -, h⟩ := bind_eq_ok_iff.1 h
  obtain ⟨filter, -, h⟩ := bind_eq_ok_iff.1 h
  obtain rfl : (⟨⟨pattern, dir⟩, ⟨flag⟩, ⟨filter⟩⟩ : Settings) = s := Except.ok.inj h
  rcases entries_of_sectionOf hregistry with hempty | hentries
  · rw [setting?, hempty]
    exact Or.inl rfl
  · rw [← hentries, field_entries] at hdir
    exact Or.inr hdir

theorem not_compound_of_inheritedDir {all : SettingValue} {dir : Option String}
    (h : inheritedDir all = .ok dir) : ¬Compound (setting? all "registry" "schema_dir") := by
  intro hcompound
  rw [inheritedDir] at h
  generalize setting? all "registry" "schema_dir" = found at h hcompound
  cases hcompound with
  | list items => cases h
  | table entries => cases h

/-- Layers that can each be read alone leave no directory, or just the one that one of them
sets. -/
theorem inheritedDir_cases {lower : List Layer}
    (halone : ∀ layer ∈ lower, ∃ alone, settings (merged [layer]) = .ok alone) :
    ∃ dir, inheritedDir (merged lower) = .ok dir ∧
      (dir = none ∨ ∃ layer ∈ lower, ∃ alone, settings (merged [layer]) = .ok alone ∧
        alone.registry.schemaDir = dir) := by
  have hread : ∀ layer ∈ lower, ¬Compound (setting? (merged [layer]) "registry" "schema_dir") := by
    intro layer hlayer
    obtain ⟨alone, hsettings⟩ := halone layer hlayer
    rcases inheritedDir_of_settings hsettings with hnone | hdir
    · rw [hnone]
      intro hcompound
      cases hcompound
    · exact not_compound_of_inheritedDir hdir
  -- the merged layers have the entry of one of them, and that one reads it alone
  rcases setting?_merged "registry" "schema_dir" hread with hnone | ⟨layer, hlayer, hsame⟩
  · exact ⟨none, by rw [inheritedDir, hnone]; rfl, Or.inl rfl⟩
  · obtain ⟨alone, hsettings⟩ := halone layer hlayer
    rw [inheritedDir, hsame, ← inheritedDir]
    rcases inheritedDir_of_settings hsettings with hnone | hdir
    · exact ⟨none, by rw [inheritedDir, hnone]; rfl, Or.inl rfl⟩
    · exact ⟨_, hdir, Or.inr ⟨layer, hlayer, alone, hsettings, rfl⟩⟩

/-! ## The files that are loaded -/

/-- A file of settings whose name has the extension of the format is the layer of the settings. -/
theorem requiredLayer_of_file {c : Settings} {disk : Disk Id} {path : String}
    (hkind : disk.kind? path = pure (some .file))
    (hbytes : disk.bytes path = pure (.ok c.toToml.toUTF8)) :
    requiredLayer disk path = pure
      (if (pathNames path).getLast?.bind extension? = some "toml" then .ok c.layer
      else .error (.unknownFormat path)) := by
  have hfile : disk.isFile path = pure true := by
    rw [Disk.isFile, hkind, pure_bind]
    rfl
  have htext : disk.text path = pure (.ok c.toToml) := by
    rw [Disk.text, hbytes, pure_bind]
    simp only [Utf8.text?_toUTF8]
  rw [requiredLayer, locate, hfile]
  simp only [pure_bind, if_true]
  split
  · simp only [pure_bind, htext, layerOf_toToml]
  · simp only [pure_bind]

theorem requiredLayer_saved {c : Settings} {s s' : Snapshot} {path : String}
    (hsave : c.save s path = .ok s') :
    requiredLayer s'.disk path = pure
      (if (pathNames path).getLast?.bind extension? = some "toml" then .ok c.layer
      else .error (.unknownFormat path)) :=
  requiredLayer_of_file (Snapshot.kind?_write hsave) (Snapshot.bytes_write hsave)

/-- A file that is not there, with or without the extension, is an empty layer. -/
theorem optionalLayer_of_missing {disk : Disk Id} {name path : String}
    (hname : disk.kind? name = pure none) (hpath : barePath? name = some path)
    (hextended : disk.kind? (path ++ ".toml") = pure none) :
    optionalLayer disk name = pure (.ok []) := by
  rw [optionalLayer, requiredLayer, locate, Disk.isFile, hname]
  simp only [pure_bind, hpath, Disk.isFile, hextended]
  rfl

/-- The file that is asked for is a layer over all the others. -/
theorem fileLayers_asked {disk : Disk Id} {userDirectory path : String} {lower : List Layer}
    {last : Except SettingsError Layer}
    (hlower : fileLayers disk userDirectory none = pure (.ok lower))
    (hlast : requiredLayer disk path = pure last) :
    ∃ others, lower = others ++ [[]] ∧
      fileLayers disk userDirectory (some path) = pure ((others ++ [·]) <$> last) := by
  obtain ⟨placed, hplaced⟩ : ∃ placed, places.mapM (optionalLayer disk) = pure placed := ⟨_, rfl⟩
  obtain ⟨user, huser⟩ : ∃ user, optionalLayer disk (userFile userDirectory) = pure user :=
    ⟨_, rfl⟩
  obtain ⟨kind, hkind⟩ : ∃ kind, disk.kind? (userFile userDirectory) = pure kind := ⟨_, rfl⟩
  -- what is read before the last file does not depend on whether one is asked for
  obtain ⟨below, hnone, hsome⟩ : ∃ below : List (Except SettingsError Layer),
      fileLayers disk userDirectory none = pure ((below ++ [Except.ok []]).mapM id) ∧
        fileLayers disk userDirectory (some path) = pure ((below ++ [last]).mapM id) := by
    cases kind with
    | none =>
        refine ⟨placed ++ [Except.ok []], ?_⟩
        rw [fileLayers, fileLayers, hplaced, hkind, List.append_assoc, List.append_assoc]
        simp only [pure_bind, hlast]
        exact ⟨rfl, rfl⟩
    | some kind =>
        refine ⟨placed ++ [user], ?_⟩
        rw [fileLayers, fileLayers, hplaced, hkind, List.append_assoc, List.append_assoc]
        simp only [pure_bind, huser, hlast]
        exact ⟨rfl, rfl⟩
  rw [hnone, mapM_concat] at hlower
  obtain ⟨others, hothers, hlower⟩ := bind_eq_ok_iff.1 hlower
  obtain rfl : others ++ [[]] = lower := Except.ok.inj hlower
  refine ⟨others, rfl, ?_⟩
  rw [hsome, mapM_concat, hothers]
  rfl

theorem environment_eq_nil {given : List (String × String)}
    (h : ∀ v ∈ given, variableKey? v.1 = none) : environment given = [] := by
  have hnone : given.filterMap (fun v =>
      (variableKey? v.1).map fun key => (key, variableValue v.2)) = [] := by
    rw [List.filterMap_eq_nil_iff]
    intro v hv
    rw [h v hv]
    rfl
  rw [environment, hnone]
  rfl

/-- Saved settings are what is loaded, with the directory from below where they set none. -/
theorem load_over {c : Settings} {s s' : Snapshot} {path userDirectory : String}
    {lower : List Layer} {dir : Option String} {given : List (String × String)}
    (hsave : c.save s path = .ok s')
    (hlower : fileLayers s'.disk userDirectory none = pure (.ok lower))
    (hdir : inheritedDir (merged lower) = .ok dir)
    (hgiven : ∀ v ∈ given, variableKey? v.1 = none) :
    load s'.disk userDirectory (some path) given = pure
      (if (pathNames path).getLast?.bind extension? = some "toml" then
        .ok { c with registry.schemaDir := c.registry.schemaDir.or dir }
      else .error (.unknownFormat path)) := by
  obtain ⟨others, rfl, hfiles⟩ := fileLayers_asked hlower (requiredLayer_saved hsave)
  -- an empty layer changes nothing, be it on top or below
  have hbelow : merged (others ++ [[]]) = merged others := merged_append others []
  have hmerged : merged (others ++ [c.layer] ++ [environment given]) =
      putOver (merged others) c.layer := by
    rw [environment_eq_nil hgiven, merged_append, merged_append]
    rfl
  rw [hbelow] at hdir
  by_cases htoml : (pathNames path).getLast?.bind extension? = some "toml"
  · rw [if_pos htoml] at hfiles ⊢
    rw [load, hfiles, pure_bind]
    change (pure (settings (merged (others ++ [c.layer] ++ [environment given]))) : Id _) = _
    rw [hmerged, settings_putOver_layer c hdir]
  · rw [if_neg htoml] at hfiles ⊢
    rw [load, hfiles, pure_bind]
    rfl

/-! ## Some files -/

/-- Files of settings at the top of a snapshot. -/
def files (entries : List (String × Settings)) : Snapshot :=
  ⟨entries.map fun e => ([e.1], .file e.2.toToml.toUTF8)⟩

/-- Below a saved file lies the one at the first of the known places. -/
theorem fileLayers_files (lower upper : Settings) {name : String}
    (hname : name = "saved.toml" ∨ name = "saved") :
    fileLayers (files [("casework.toml", lower), (name, upper)]).disk "home" none =
      pure (.ok [lower.layer, [], [], [], []]) := by
  generalize hdisk : (files [("casework.toml", lower), (name, upper)]).disk = disk
  have hfirst : optionalLayer disk "casework.toml" = pure (.ok lower.layer) := by
    subst hdisk
    rw [optionalLayer, requiredLayer_of_file (c := lower) rfl rfl]
    rfl
  have hhidden : optionalLayer disk ".casework.toml" = pure (.ok []) := by
    subst hdisk
    rcases hname with rfl | rfl
    · exact optionalLayer_of_missing rfl rfl rfl
    · exact optionalLayer_of_missing rfl rfl rfl
  have hconfig : optionalLayer disk "config/casework.toml" = pure (.ok []) := by
    subst hdisk
    rcases hname with rfl | rfl
    · exact optionalLayer_of_missing rfl rfl rfl
    · exact optionalLayer_of_missing rfl rfl rfl
  have huser : disk.kind? (userFile "home") = pure none := by
    subst hdisk
    rcases hname with rfl | rfl
    · rfl
    · rfl
  rw [fileLayers, huser]
  simp only [places, List.mapM_cons, List.mapM_nil, hfirst, hhidden, hconfig, pure_bind]
  rfl

/-- Settings with a directory, as they may stand in a file below. -/
def withDir : Settings := { registry := { schemaDir := some "lower" } }

/-- Each of these layers can be read alone. -/
theorem exists_settings_alone :
    ∀ layer ∈ [withDir.layer, [], [], [], []], ∃ alone, settings (merged [layer]) = .ok alone := by
  intro layer hlayer
  rcases List.mem_cons.1 hlayer with rfl | hempty
  · exact ⟨withDir, rfl⟩
  · obtain rfl : layer = [] := by simpa using hempty
    exact ⟨{}, rfl⟩

/-! ## Saving and loading -/

/-- Settings that were saved under a name with the extension of the format are loaded again as they
are, whatever valid files lie below and where no variable sets anything; only a directory that is
not set is taken from below, if one of these files sets it. -/
theorem load_saved {c : Settings} {s s' : Snapshot} {path userDirectory : String}
    {lower : List Layer} {given : List (String × String)}
    (hsave : c.save s path = .ok s')
    (htoml : (pathNames path).getLast?.bind extension? = some "toml")
    (hlower : fileLayers s'.disk userDirectory none = pure (.ok lower))
    (halone : ∀ layer ∈ lower, ∃ alone, settings (merged [layer]) = .ok alone)
    (hgiven : ∀ v ∈ given, variableKey? v.1 = none) :
    ∃ dir, inheritedDir (merged lower) = .ok dir ∧
      (dir = none ∨ ∃ layer ∈ lower, ∃ alone, settings (merged [layer]) = .ok alone ∧
        alone.registry.schemaDir = dir) ∧
      load s'.disk userDirectory (some path) given =
        pure (.ok { c with registry.schemaDir := c.registry.schemaDir.or dir }) := by
  obtain ⟨dir, hdir, hsource⟩ := inheritedDir_cases halone
  have hload := load_over hsave hlower hdir hgiven
  rw [if_pos htoml] at hload
  exact ⟨dir, hdir, hsource, hload⟩

/-- Settings with quotes and backslashes in their pattern are loaded again over a file that sets
another pattern and a directory. -/
theorem load_saved_above_file :
    let c : Settings := {
      registry := { keyPattern := "^\\w+ \"x\"$" }
      validation := { suppressHiddenListErrors := false } }
    load (files [("casework.toml", withDir), ("saved.toml", c)]).disk "home" (some "saved.toml")
      [("PATH", "/bin")] = pure (.ok { c with registry.schemaDir := some "lower" }) := by
  intro c
  have hsave : c.save (files [("casework.toml", withDir)]) "saved.toml" =
      .ok (files [("casework.toml", withDir), ("saved.toml", c)]) := rfl
  have hgiven : ∀ v ∈ [("PATH", "/bin")], variableKey? v.1 = none := by decide
  obtain ⟨dir, hdir, -, hload⟩ := load_saved hsave (by decide)
    (fileLayers_files withDir c (Or.inl rfl)) exists_settings_alone hgiven
  obtain rfl : some "lower" = dir := Except.ok.inj hdir
  exact hload

/-- A directory that is not set gives way to one of a file below, and a file without the
extension of the format is saved but not loaded. -/
theorem load_saved_differs :
    (∃ s lower, save {} (files [("casework.toml", withDir)]) "saved.toml" = .ok s ∧
      fileLayers s.disk "home" none = pure (.ok lower) ∧
      (∀ layer ∈ lower, ∃ alone, settings (merged [layer]) = .ok alone) ∧
      load s.disk "home" (some "saved.toml") [] = pure (.ok withDir) ∧ withDir ≠ {}) ∧
    ∃ s lower, save {} (files [("casework.toml", withDir)]) "saved" = .ok s ∧
      fileLayers s.disk "home" none = pure (.ok lower) ∧
      (∀ layer ∈ lower, ∃ alone, settings (merged [layer]) = .ok alone) ∧
      load s.disk "home" (some "saved") [] = pure (.error (.unknownFormat "saved")) := by
  have hdir : inheritedDir (merged [withDir.layer, [], [], [], []]) = .ok (some "lower") := rfl
  constructor
  · have hfiles := fileLayers_files withDir {} (Or.inl rfl)
    have hsave : save {} (files [("casework.toml", withDir)]) "saved.toml" =
        .ok (files [("casework.toml", withDir), ("saved.toml", {})]) := rfl
    have hload := load_over hsave hfiles hdir (List.forall_mem_nil _)
    exact ⟨_, _, hsave, hfiles, exists_settings_alone, hload, by decide⟩
  · have hfiles := fileLayers_files withDir {} (Or.inr rfl)
    have hsave : save {} (files [("casework.toml", withDir)]) "saved" =
        .ok (files [("casework.toml", withDir), ("saved", {})]) := rfl
    have hload := load_over hsave hfiles hdir (List.forall_mem_nil _)
    exact ⟨_, _, hsave, hfiles, exists_settings_alone, hload⟩

end SchemaCatalog.Settings
