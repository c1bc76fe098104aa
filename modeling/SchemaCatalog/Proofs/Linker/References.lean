import Mathlib.Data.List.Forall2
import SchemaCatalog.Linker.Basic
import SchemaCatalog.Text.Basic

/-!
# References in expressions

A reference starts where the keyword stands in front of a word character, unless the character
before it makes the keyword part of something else (`StartsAt`); its path is the longest one behind
the keyword (`LongestPath`).

The search takes up a reference with its path and looks again only behind it. Nothing is hidden in
this way, since each character that is taken up makes a keyword behind it part of something else
(`scan_eq_references`). So every reference is found, with its path, and nothing else
(`exists_positions`).
-/

set_option autoImplicit false

namespace SchemaCatalog.DataPath

/-! ## Paths -/

/-- Characters that form a path: segments of word characters with a dot between each two. -/
def IsPath (cs : List Char) : Prop :=
  ∃ segments, segments ≠ [] ∧
    (∀ segment ∈ segments, segment ≠ [] ∧ ∀ c ∈ segment, Text.isWordChar c = true) ∧
    cs = ['.'].intercalate segments

/-- A path at the front of some characters of which no other one is longer. -/
structure LongestPath (cs path : List Char) : Prop where
  front : path <+: cs
  isPath : IsPath path
  longest : ∀ other, other <+: cs → IsPath other → other.length ≤ path.length

/-- What may follow within a path, either behind a character of a segment or where a segment
starts. -/
inductive Runs : Bool → List Char → Prop
  | done : Runs true []
  | word {afterSegment : Bool} {c : Char} {rest : List Char} (hword : Text.isWordChar c = true)
      (hrest : Runs true rest) : Runs afterSegment (c :: rest)
  | dot {rest : List Char} (hrest : Runs false rest) : Runs true ('.' :: rest)

theorem Runs.append {afterSegment : Bool} {segment rest : List Char}
    (hword : ∀ c ∈ segment, Text.isWordChar c = true) (hne : afterSegment = false → segment ≠ [])
    (hrest : Runs true rest) : Runs afterSegment (segment ++ rest) := by
  induction segment generalizing afterSegment with
  | nil =>
      cases afterSegment with
      | false => exact absurd rfl (hne rfl)
      | true => exact hrest
  | cons c segment ih =>
      apply Runs.word (hword c List.mem_cons_self)
      exact ih (fun d hd => hword d (List.mem_cons_of_mem c hd)) nofun

/-- What follows starts with the rest of a segment, which is not empty where a segment starts. -/
theorem Runs.exists_segments {afterSegment : Bool} {cs : List Char} (h : Runs afterSegment cs) :
    ∃ first rest, (afterSegment = false → first ≠ []) ∧
      (∀ c ∈ first, Text.isWordChar c = true) ∧
      (∀ segment ∈ rest, segment ≠ [] ∧ ∀ c ∈ segment, Text.isWordChar c = true) ∧
      cs = ['.'].intercalate (first :: rest) := by
  induction h with
  | done => exact ⟨[], [], nofun, List.forall_mem_nil _, List.forall_mem_nil _, rfl⟩
  | @word _ c _ hword _ ih =>
      obtain ⟨first, rest, -, hfirst, hrest, rfl⟩ := ih
      refine ⟨c :: first, rest, fun _ => List.cons_ne_nil c first, ?_, hrest, ?_⟩
      · exact List.forall_mem_cons.2 ⟨hword, hfirst⟩
      · cases rest with
        | nil => rfl
        | cons next rest => rfl
  | dot _ ih =>
      obtain ⟨first, rest, hne, hfirst, hrest, rfl⟩ := ih
      refine ⟨[], first :: rest, nofun, List.forall_mem_nil _, ?_, rfl⟩
      exact List.forall_mem_cons.2 ⟨⟨hne rfl, hfirst⟩, hrest⟩

theorem isPath_iff_runs {cs : List Char} : IsPath cs ↔ Runs false cs := by
  constructor
  · rintro ⟨segments, hne, hsegments, rfl⟩
    induction segments with
    | nil => exact absurd rfl hne
    | cons segment rest ih =>
        obtain ⟨⟨hsegment, hword⟩, hrest⟩ := List.forall_mem_cons.1 hsegments
        cases rest with
        | nil =>
            rw [List.intercalate_singleton, ← List.append_nil segment]
            exact Runs.append hword (fun _ => hsegment) .done
        | cons next rest =>
            rw [List.intercalate_cons_cons, List.append_assoc]
            exact Runs.append hword (fun _ => hsegment) (.dot (ih (List.cons_ne_nil next rest) hrest))
  · intro h
    obtain ⟨first, rest, hne, hfirst, hrest, rfl⟩ := h.exists_segments
    refine ⟨first :: rest, List.cons_ne_nil first rest, ?_, rfl⟩
    exact List.forall_mem_cons.2 ⟨⟨hne rfl, hfirst⟩, hrest⟩

theorem IsPath.ne_nil {cs : List Char} (h : IsPath cs) : cs ≠ [] := by
  cases isPath_iff_runs.1 h with
  | word _ _ => exact List.cons_ne_nil _ _

/-! ## The length of the path at the front -/

theorem pathLength_word {afterSegment : Bool} {c : Char} {cs : List Char}
    (h : Text.isWordChar c = true) :
    pathLength afterSegment (c :: cs) = pathLength true cs + 1 := by
  rw [pathLength.eq_def]
  exact if_pos h

theorem pathLength_dot {d : Char} {cs : List Char} (h : Text.isWordChar d = true) :
    pathLength true ('.' :: d :: cs) = pathLength false (d :: cs) + 1 := by
  have hdot : ¬ Text.isWordChar '.' = true := by decide
  rw [pathLength.eq_def]
  simp only [hdot, h]
  rfl

/-- At the front stands no segment, and no dot with a segment behind it. -/
theorem pathLength_eq_zero {afterSegment : Bool} {c : Char} {cs : List Char}
    (hword : ¬ Text.isWordChar c = true)
    (hdot : afterSegment = true → c = '.' → ∀ d rest, cs = d :: rest → ¬ Text.isWordChar d = true) :
    pathLength afterSegment (c :: cs) = 0 := by
  rw [pathLength.eq_def]
  dsimp only
  rw [if_neg hword]
  by_cases hc : c = '.' ∧ afterSegment = true
  · obtain ⟨rfl, rfl⟩ := hc
    cases cs with
    | nil => rfl
    | cons d rest =>
        have hd := hdot rfl rfl d rest rfl
        simp [hd]
  · rw [if_neg]
    simpa using hc

/-- No path at the front is longer than the one that is measured. -/
theorem Runs.length_le {afterSegment : Bool} {path : List Char} (h : Runs afterSegment path) :
    ∀ cs, path <+: cs → path.length ≤ pathLength afterSegment cs := by
  induction h with
  | done => exact fun _ _ => Nat.zero_le _
  | @word _ c _ hword _ ih =>
      rintro _ ⟨behind, rfl⟩
      rw [List.cons_append, pathLength_word hword, List.length_cons]
      exact Nat.succ_le_succ (ih _ (List.prefix_append _ _))
  | @dot rest hrest ih =>
      rintro _ ⟨behind, rfl⟩
      cases hrest with
      | @word _ d rest hword hrest =>
          rw [List.cons_append, List.cons_append, pathLength_dot hword, List.length_cons]
          exact Nat.succ_le_succ (ih _ (List.prefix_append _ _))

/-- What is measured can be there, unless no segment starts where one has to. -/
theorem runs_take_pathLength (cs : List Char) :
    Runs true (cs.take (pathLength true cs)) ∧
      (pathLength false cs ≠ 0 → Runs false (cs.take (pathLength false cs))) := by
  induction cs with
  | nil => exact ⟨.done, fun h => absurd rfl h⟩
  | cons c cs ih =>
      by_cases hword : Text.isWordChar c = true
      · rw [pathLength_word hword, pathLength_word hword, List.take_succ_cons]
        exact ⟨.word hword ih.1, fun _ => .word hword ih.1⟩
      have hnone : pathLength false (c :: cs) = 0 := pathLength_eq_zero hword nofun
      refine ⟨?_, fun h => absurd hnone h⟩
      by_cases hdot : c = '.' ∧ ∃ d rest, cs = d :: rest ∧ Text.isWordChar d = true
      · -- a dot counts only together with the segment behind it
        obtain ⟨rfl, d, rest, rfl, hd⟩ := hdot
        rw [pathLength_dot hd, List.take_succ_cons]
        refine .dot (ih.2 ?_)
        rw [pathLength_word hd]
        exact Nat.succ_ne_zero _
      · have hstop : pathLength true (c :: cs) = 0 :=
          pathLength_eq_zero hword fun _ hc d rest hcs hd => hdot ⟨hc, d, rest, hcs, hd⟩
        rw [hstop]
        exact .done

/-! ## The reference at the front -/

theorem LongestPath.unique {cs path path' : List Char} (h : LongestPath cs path)
    (h' : LongestPath cs path') : path = path' := by
  have hlength : path.length = path'.length :=
    Nat.le_antisymm (h'.longest path h.front h.isPath) (h.longest path' h'.front h'.isPath)
  exact (List.prefix_of_prefix_length_le h.front h'.front (Nat.le_of_eq hlength)).eq_of_length hlength

theorem longestPath_take {cs : List Char} (h : pathLength false cs ≠ 0) :
    LongestPath cs (cs.take (pathLength false cs)) where
  front := List.take_prefix _ cs
  isPath := isPath_iff_runs.2 ((runs_take_pathLength cs).2 h)
  longest := by
    intro other hfront hother
    have hle := (isPath_iff_runs.1 hother).length_le cs hfront
    have hlength := hfront.length_le
    rw [List.length_take]
    omega

theorem LongestPath.length_ne_zero {cs path : List Char} (h : LongestPath cs path) :
    pathLength false cs ≠ 0 := by
  have hruns := isPath_iff_runs.1 h.isPath
  have hle := hruns.length_le cs h.front
  cases hruns with
  | word hword hrest =>
      rw [List.length_cons] at hle
      omega

/-- The path of the reference at the front is the longest one behind the keyword. -/
theorem reference?_eq_some_iff {cs path : List Char} : reference? cs = some path ↔
    keyword <+: cs ∧ LongestPath (cs.drop keyword.length) path := by
  rw [reference?, afterKeyword?]
  by_cases hkeyword : keyword.isPrefixOf cs = true
  · rw [if_pos hkeyword, and_iff_right (List.isPrefixOf_iff_prefix.1 hkeyword)]
    dsimp only
    by_cases hnone : pathLength false (cs.drop keyword.length) = 0
    · -- a keyword without a path is no reference
      rw [hnone, List.take_zero, List.isEmpty_nil, if_pos rfl]
      exact iff_of_false nofun fun h => h.length_ne_zero hnone
    · have hlongest := longestPath_take hnone
      rw [List.isEmpty_eq_false_iff.2 hlongest.isPath.ne_nil, if_neg Bool.false_ne_true,
        Option.some.injEq]
      constructor
      · rintro rfl
        exact hlongest
      · exact hlongest.unique
  · rw [if_neg hkeyword]
    exact iff_of_false nofun fun h => hkeyword (List.isPrefixOf_iff_prefix.2 h.1)

/-- A path starts where a word character stands. -/
theorem exists_longestPath_iff {cs : List Char} :
    (∃ path, LongestPath cs path) ↔ ∃ c, cs[0]? = some c ∧ Text.isWordChar c = true := by
  constructor
  · rintro ⟨path, hpath⟩
    cases isPath_iff_runs.1 hpath.isPath with
    | @word _ c rest hword _ =>
        obtain ⟨behind, rfl⟩ := hpath.front
        exact ⟨c, rfl, hword⟩
  · rintro ⟨c, hc, hword⟩
    cases cs with
    | nil => cases hc
    | cons d cs =>
        cases hc
        refine ⟨_, longestPath_take ?_⟩
        rw [pathLength_word hword]
        exact Nat.succ_ne_zero _

/-! ## Nothing is hidden -/

/-- The paths of the references at all places where a keyword may stand. -/
def references : Bool → List Char → List (List Char)
  | _, [] => []
  | free, c :: cs =>
      (if free then (reference? (c :: cs)).toList else []) ++ references (!continues c) cs

/-- Within characters that continue a word or path no reference starts. -/
theorem references_append {taken : List Char} (h : ∀ c ∈ taken, continues c = true)
    (cs : List Char) : references false (taken ++ cs) = references false cs := by
  induction taken with
  | nil => rfl
  | cons c taken ih =>
      obtain ⟨hc, htaken⟩ := List.forall_mem_cons.1 h
      rw [List.cons_append, references, hc, Bool.not_true, ih htaken]
      rfl

theorem scan_append (taken cs : List Char) :
    scan taken.length false (taken ++ cs) = scan 0 false cs := by
  induction taken with
  | nil => rfl
  | cons c taken ih =>
      rw [List.cons_append, List.length_cons, scan]
      exact ih

theorem Runs.continues {afterSegment : Bool} {cs : List Char} (h : Runs afterSegment cs) :
    ∀ c ∈ cs, continues c = true := by
  induction h with
  | done => exact List.forall_mem_nil _
  | word hword _ ih =>
      refine List.forall_mem_cons.2 ⟨?_, ih⟩
      rw [DataPath.continues, hword, Bool.true_or]
  | dot _ ih => exact List.forall_mem_cons.2 ⟨by decide, ih⟩

/-- What a reference takes up continues a word or path to its end. -/
theorem exists_taken_of_reference? {c : Char} {cs path : List Char}
    (h : reference? (c :: cs) = some path) : continues c = true ∧ ∃ taken behind,
      cs = taken ++ behind ∧ taken.length = keyword.length + path.length - 1 ∧
        ∀ d ∈ taken, continues d = true := by
  obtain ⟨⟨rest, hrest⟩, hpath⟩ := reference?_eq_some_iff.1 h
  rw [← hrest, List.drop_left] at hpath
  obtain ⟨behind, rfl⟩ := hpath.front
  cases hrest
  refine ⟨by decide, keyword.tail ++ path, behind, rfl, ?_, ?_⟩
  · have hpos : 0 < keyword.length := by decide
    rw [List.length_append, List.length_tail]
    omega
  · intro d hd
    rcases List.mem_append.1 hd with hd | hd
    · have hkeyword : keyword.tail.all DataPath.continues = true := by decide
      exact List.all_eq_true.1 hkeyword d hd
    · exact (isPath_iff_runs.1 hpath.isPath).continues d hd

/-- The search goes on behind a reference, yet it finds one wherever a keyword may stand. -/
theorem scan_eq_references (cs : List Char) : ∀ free, scan 0 free cs = references free cs := by
  induction hlength : cs.length using Nat.strongRecOn generalizing cs with
  | ind n ih =>
      subst hlength
      intro free
      cases cs with
      | nil => cases free <;> rfl
      | cons c cs =>
          -- the search goes on with the next character, or behind all that a reference takes up
          have hnext : ∀ free, scan 0 free cs = references free cs :=
            ih cs.length (Nat.lt_succ_self _) cs rfl
          cases free with
          | false =>
              rw [scan, references, hnext]
              rfl
          | true =>
              rw [scan, references, if_pos rfl]
              cases href : reference? (c :: cs) with
              | none => exact hnext _
              | some path =>
                  obtain ⟨hc, taken, behind, rfl, hlength, htaken⟩ := exists_taken_of_reference? href
                  have hlt : behind.length < (c :: (taken ++ behind)).length := by
                    rw [List.length_cons, List.length_append]
                    omega
                  dsimp only
                  rw [← hlength, scan_append, hc, Bool.not_true, references_append htaken,
                    ih behind.length hlt behind rfl]
                  rfl

/-! ## Where references start -/

/-- A reference starts at a position: the keyword stands there in front of a word character, and
either at the start, where the flag tells whether it may, or behind a character that does not make
it part of something else. -/
structure StartsAt (free : Bool) (cs : List Char) (i : Nat) : Prop where
  here : keyword <+: cs.drop i
  behind : ∃ c, cs[i + keyword.length]? = some c ∧ Text.isWordChar c = true
  before : (i = 0 ∧ free = true) ∨ ∃ j c, i = j + 1 ∧ cs[j]? = some c ∧ continues c = false

section StartsAt

variable {free : Bool} {c : Char} {cs : List Char} {i : Nat}

theorem startsAt_zero_iff :
    StartsAt free cs 0 ↔ free = true ∧ ∃ path, reference? cs = some path := by
  have hpath : (∃ path, LongestPath (cs.drop keyword.length) path) ↔
      ∃ c, cs[0 + keyword.length]? = some c ∧ Text.isWordChar c = true := by
    rw [exists_longestPath_iff, List.getElem?_drop, Nat.add_comm]
  simp only [reference?_eq_some_iff, exists_and_left]
  rw [hpath]
  constructor
  · rintro ⟨hkeyword, hword, ⟨-, hfree⟩ | ⟨j, c, hj, -⟩⟩
    · exact ⟨hfree, hkeyword, hword⟩
    · cases hj
  · rintro ⟨hfree, hkeyword, hword⟩
    exact ⟨hkeyword, hword, Or.inl ⟨rfl, hfree⟩⟩

theorem startsAt_succ_iff :
    StartsAt free (c :: cs) (i + 1) ↔ StartsAt (!continues c) cs i := by
  have hbefore : ((i + 1 = 0 ∧ free = true) ∨
      ∃ j d, i + 1 = j + 1 ∧ (c :: cs)[j]? = some d ∧ continues d = false) ↔
      (i = 0 ∧ (!continues c) = true) ∨
        ∃ j d, i = j + 1 ∧ cs[j]? = some d ∧ continues d = false := by
    cases i with
    | zero => simp
    | succ i => simp
  have hpath : (c :: cs)[i + 1 + keyword.length]? = cs[i + keyword.length]? := by
    rw [Nat.add_right_comm, List.getElem?_cons_succ]
  constructor
  · rintro ⟨hkeyword, hword, hfree⟩
    exact ⟨hkeyword, hpath ▸ hword, hbefore.1 hfree⟩
  · rintro ⟨hkeyword, hword, hfree⟩
    exact ⟨hkeyword, hpath.symm ▸ hword, hbefore.2 hfree⟩

end StartsAt

/-- The references are the longest paths at the positions where references start, in order. -/
theorem exists_positions (cs : List Char) : ∀ free, ∃ positions : List Nat,
    positions.Pairwise (· < ·) ∧ (∀ i, i ∈ positions ↔ StartsAt free cs i) ∧
      List.Forall₂ (fun i path => LongestPath (cs.drop (i + keyword.length)) path) positions
        (references free cs) := by
  induction cs with
  | nil =>
      refine fun free => ⟨[], List.Pairwise.nil, fun i => ?_, .nil⟩
      refine iff_of_false List.not_mem_nil fun h => ?_
      obtain ⟨c, hc, -⟩ := h.behind
      cases hc
  | cons c cs ih =>
      intro free
      obtain ⟨later, hordered, hmem, hpaths⟩ := ih (!continues c)
      -- what starts behind the first character starts one further back there
      have hordered' : (later.map Nat.succ).Pairwise (· < ·) :=
        List.pairwise_map.2 (hordered.imp Nat.succ_lt_succ)
      have hmem' : ∀ i, i + 1 ∈ later.map Nat.succ ↔ StartsAt free (c :: cs) (i + 1) := by
        intro i
        rw [startsAt_succ_iff, ← hmem i]
        exact List.mem_map_of_injective fun _ _ => Nat.succ.inj
      have hpaths' : List.Forall₂ (fun i path =>
          LongestPath ((c :: cs).drop (i + keyword.length)) path) (later.map Nat.succ)
          (references (!continues c) cs) := by
        rw [List.forall₂_map_left_iff]
        refine hpaths.imp fun i path hpath => ?_
        rw [Nat.succ_add, List.drop_succ_cons]
        exact hpath
      by_cases hstarts : StartsAt free (c :: cs) 0
      · obtain ⟨rfl, path, hpath⟩ := startsAt_zero_iff.1 hstarts
        refine ⟨0 :: later.map Nat.succ, ?_, ?_, ?_⟩
        · refine List.pairwise_cons.2 ⟨fun i hi => ?_, hordered'⟩
          obtain ⟨j, -, rfl⟩ := List.mem_map.1 hi
          exact Nat.succ_pos j
        · rintro (_ | i)
          · exact iff_of_true List.mem_cons_self hstarts
          · rw [List.mem_cons, ← hmem' i]
            exact or_iff_right (Nat.succ_ne_zero i)
        · rw [references, if_pos rfl, hpath]
          refine List.Forall₂.cons ?_ hpaths'
          rw [Nat.zero_add]
          exact (reference?_eq_some_iff.1 hpath).2
      · refine ⟨later.map Nat.succ, hordered', ?_, ?_⟩
        · rintro (_ | i)
          · refine iff_of_false (fun hmem => ?_) hstarts
            obtain ⟨j, -, hj⟩ := List.mem_map.1 hmem
            exact absurd hj (Nat.succ_ne_zero j)
          · exact hmem' i
        · have hnone : (if free then (reference? (c :: cs)).toList else []) = [] := by
            cases free with
            | false => rfl
            | true =>
                rw [if_pos rfl, Option.toList_eq_nil_iff, Option.eq_none_iff_forall_ne_some]
                exact fun path hpath => hstarts (startsAt_zero_iff.2 ⟨rfl, path, hpath⟩)
          rw [references, hnone]
          exact hpaths'

end SchemaCatalog.DataPath
