import SchemaCatalog.Disk.Snapshot

/-!
# Written files

A file that is written changes what stands under its own names and nothing else
(`entry?_put_self`, `entry?_put_of_ne`), because all directories on the way to it are there
already. So the way through these directories stays what it was (`walk_through`), and the path
at which the file was written leads to its bytes (`at?_write`).
-/

set_option autoImplicit false

namespace SchemaCatalog.Snapshot

/-! ## What stands where -/

theorem entry?_put_self (s : Snapshot) {names : List String} (hnames : names ≠ [])
    (bytes : ByteArray) : Snapshot.entry? (s.put names bytes) names = some (.file bytes) := by
  have hold : (s.entries.filter fun e => e.1 != names).find? (fun e => e.1 == names) = none := by
    rw [List.find?_eq_none]
    intro e he
    have hne := (List.mem_filter.1 he).2
    simpa using hne
  have hempty : names.isEmpty = false := by simpa using hnames
  unfold entry?
  simp [put, hempty, List.find?_append, hold]

/-- Behind a directory lies some entry, or it is the top. -/
theorem exists_entry_of_directory {s : Snapshot} {place : List String}
    (h : s.entry? place = some .directory) : place = [] ∨ ∃ e ∈ s.entries, place <+: e.1 := by
  by_cases hempty : place = []
  · exact Or.inl hempty
  refine Or.inr ?_
  unfold entry? at h
  rw [if_neg (by simpa using hempty)] at h
  split at h
  · rename_i e hfind
    have hname : e.1 = place := by simpa using List.find?_some hfind
    exact ⟨e, List.mem_of_find?_eq_some hfind, hname ▸ List.prefix_rfl⟩
  · split at h
    · rename_i hany
      obtain ⟨e, he, hbelow⟩ := List.any_eq_true.1 hany
      exact ⟨e, he, List.isPrefixOf_iff_prefix.1 hbelow⟩
    · cases h

/-- The same entries lie below names, a new file apart that lies in a directory. -/
theorem any_put {s : Snapshot} {place : List String} {name : String}
    (hplace : s.entry? place = some .directory) (bytes : ByteArray) {names : List String}
    (hne : names ≠ place ++ [name]) (hempty : names ≠ []) :
    (s.put (place ++ [name]) bytes).entries.any (fun e => names.isPrefixOf e.1) =
      s.entries.any fun e => names.isPrefixOf e.1 := by
  rw [Bool.eq_iff_iff, List.any_eq_true, List.any_eq_true]
  simp only [put, List.mem_append, List.mem_filter, List.mem_singleton,
    List.isPrefixOf_iff_prefix, bne_iff_ne]
  constructor
  · rintro ⟨e, ⟨he, -⟩ | rfl, hbelow⟩
    · exact ⟨e, he, hbelow⟩
    · -- what leads to the file leads to its directory, and to what lies there
      have hdirectory : names <+: place :=
        (List.prefix_concat_iff.1 hbelow).resolve_left hne
      rcases exists_entry_of_directory hplace with rfl | ⟨e, he, hplaced⟩
      · exact absurd (List.prefix_nil.1 hdirectory) hempty
      · exact ⟨e, he, hdirectory.trans hplaced⟩
  · rintro ⟨e, he, hbelow⟩
    by_cases hfile : e.1 = place ++ [name]
    · exact ⟨_, Or.inr rfl, hfile ▸ hbelow⟩
    · exact ⟨e, Or.inl ⟨he, hfile⟩, hbelow⟩

/-- A file written into a directory that is there changes nothing under other names. -/
theorem entry?_put_of_ne {s : Snapshot} {place : List String} {name : String}
    (hplace : s.entry? place = some .directory) (bytes : ByteArray) {names : List String}
    (hne : names ≠ place ++ [name]) :
    Snapshot.entry? (s.put (place ++ [name]) bytes) names = s.entry? names := by
  by_cases hempty : names = []
  · subst hempty
    rfl
  have hfind : (s.put (place ++ [name]) bytes).entries.find? (fun e => e.1 == names) =
      s.entries.find? fun e => e.1 == names := by
    have hfile : (place ++ [name] == names) = false := by simpa using Ne.symm hne
    have hold : ∀ e : List String × SnapshotEntry,
        decide ((e.1 != place ++ [name]) = true ∧ (e.1 == names) = true) = (e.1 == names) := by
      intro e
      by_cases he : e.1 = names
      · simp [he, hne]
      · simp [he]
    simp only [put, List.find?_append, List.find?_filter, List.find?_singleton, hfile, hold,
      Bool.false_eq_true, if_false, Option.or_none]
  unfold entry?
  rw [hfind, any_put hplace bytes hne hempty]

/-! ## Ways to files -/

/-- What a way leads to stands there. -/
theorem entry?_of_walk {s : Snapshot} {start place : List String} {names : List String}
    {entry : SnapshotEntry} (h : s.walk start names = .ok (place, entry)) :
    s.entry? place = some entry := by
  induction names generalizing start with
  | nil =>
      rw [walk] at h
      split at h
      · rename_i hstart
        cases h
        exact hstart
      · cases h
  | cons name rest ih =>
      rw [walk] at h
      split at h
      · cases h
      · cases h
      · split at h
        · exact ih h
        · split at h
          · split at h
            · cases h
            · exact ih h
          · exact ih h

/-- The way to a directory is the same in a snapshot that has the same directories, and from
there a longer way goes on. -/
theorem walk_through {s s' : Snapshot}
    (hsame : ∀ names, s.entry? names = some .directory → s'.entry? names = some .directory)
    {start place : List String} {names : List String}
    (h : s.walk start names = .ok (place, .directory)) (more : List String) :
    s'.walk start (names ++ more) = s'.walk place more := by
  induction names generalizing start with
  | nil =>
      rw [walk] at h
      split at h
      · cases h
        rfl
      · cases h
  | cons name rest ih =>
      rw [List.cons_append]
      rw [walk] at h ⊢
      split at h
      · cases h
      · cases h
      · rename_i hstart
        rw [hsame start hstart]
        -- the place is a directory in both, so both take the same kind of step
        split at h
        · rename_i hstay
          simp only [if_pos hstay]
          exact ih h
        · rename_i hgo
          simp only [if_neg hgo]
          split at h
          · rename_i hup
            simp only [if_pos hup]
            split at h
            · cases h
            · rename_i htop
              simp only [if_neg htop]
              exact ih h
          · rename_i hdown
            simp only [if_neg hdown]
            exact ih h

/-! ## What was written -/

/-- A file is written under a name of its own, into a directory that is there, and where no
directory stands. -/
theorem write_cases {s s' : Snapshot} {path : String} {bytes : ByteArray}
    (h : s.write path bytes = .ok s') :
    ¬(path.isEmpty || path.front == '/') ∧
      ∃ way name place, pathNames path = way ++ [name] ∧ (name ≠ "" ∧ name ≠ "." ∧ name ≠ "..") ∧
        s.walk [] way = .ok (place, .directory) ∧
        s.entry? (place ++ [name]) ≠ some .directory ∧
        s' = s.put (place ++ [name]) bytes := by
  rw [write] at h
  split at h
  · cases h
  rename_i hpath
  refine ⟨hpath, (pathNames path).dropLast, (pathNames path).getLastD "", ?_⟩
  split at h
  · cases h
  · cases h
  rename_i place hwalk
  dsimp only at h
  split at h
  · cases h
  rename_i hname
  split at h
  · cases h
  rename_i hfree
  refine ⟨place, ?_, by simpa only [not_or] using hname, hwalk, hfree, (Except.ok.inj h).symm⟩
  rcases List.eq_nil_or_concat (pathNames path) with hnil | ⟨way, name, hconcat⟩
  · exact absurd (Or.inl (by rw [hnil]; rfl)) hname
  · simp [hconcat]

/-- A file that was written is found at its path, with its bytes. -/
theorem at?_write {s s' : Snapshot} {path : String} {bytes : ByteArray}
    (h : s.write path bytes = .ok s') : ∃ names, s'.at? path = .ok (names, .file bytes) := by
  obtain ⟨hpath, way, name, place, hnames, ⟨hempty, hdot, hdots⟩, hwalk, hfree, rfl⟩ :=
    write_cases h
  have hplace : s.entry? place = some .directory := entry?_of_walk hwalk
  -- a directory is left as it is, for the file is put where none stands
  have hsame : ∀ names, s.entry? names = some .directory →
      Snapshot.entry? (s.put (place ++ [name]) bytes) names = some .directory := by
    intro names hdirectory
    rw [entry?_put_of_ne hplace bytes, hdirectory]
    rintro rfl
    exact hfree hdirectory
  refine ⟨place ++ [name], ?_⟩
  rw [at?, if_neg hpath, hnames, walk_through hsame hwalk, walk, hsame place hplace]
  simp only [hempty, hdot, hdots, or_self, if_false]
  rw [walk, entry?_put_self s (by simp) bytes]

theorem kind?_write {s s' : Snapshot} {path : String} {bytes : ByteArray}
    (h : s.write path bytes = .ok s') : s'.disk.kind? path = pure (some .file) := by
  obtain ⟨names, hat⟩ := at?_write h
  simp only [disk, hat]
  rfl

theorem bytes_write {s s' : Snapshot} {path : String} {bytes : ByteArray}
    (h : s.write path bytes = .ok s') : s'.disk.bytes path = pure (.ok bytes) := by
  obtain ⟨names, hat⟩ := at?_write h
  simp only [disk, hat]
  rfl

end SchemaCatalog.Snapshot
