import SchemaCatalog.Proofs.Linker.References

/-!
# References as matches of a pattern

The references of an expression are what the group of the pattern
`(?:^|[^A-Za-z0-9_.])data\.([A-Za-z0-9_]+(?:\.[A-Za-z0-9_]+)*)` takes up, match after match, and so
they are the longest paths at the places where references start (`extract_exact`). Matches are those
of a search by preference: where a match may start, the first alternative and the most rounds of a
repetition are tried first (`SearchPattern.ends`); the leftmost match is reported, and the search
goes on behind it (`captures`).

A match takes up the character in front of its keyword, while `scan` only remembers of that
character whether it stands in the way. Both come to the same, since a character that a match ends
with does stand in the way (`captures_false_eq_scan`).
-/

set_option autoImplicit false

namespace SchemaCatalog

/-! ## Search by preference -/

/-- A pattern whose matches are tried in an order. -/
inductive SearchPattern where
  | empty
  | textStart
  | char (holds : Char → Bool)
  | seq (first second : SearchPattern)
  /-- The left alternative before the right one. -/
  | either (left right : SearchPattern)
  /-- Any number of rounds, more before fewer. -/
  | many (body : SearchPattern)

namespace SearchPattern

/-- The lengths of so many rounds at most, in the order in which they are tried; a round that takes
up nothing is not repeated. -/
def rounds (body : Bool → List Char → List Nat) : Nat → Bool → List Char → List Nat
  | 0, _, _ => [0]
  | n + 1, start, cs =>
      (((body start cs).filter fun i => i != 0).flatMap fun i =>
        (rounds body n false (cs.drop i)).map fun j => i + j) ++ [0]

/-- The lengths of the matches at the front of some characters, in the order in which they are
tried. The flag tells whether the text starts there. -/
def ends : SearchPattern → Bool → List Char → List Nat
  | .empty, _, _ => [0]
  | .textStart, start, _ => if start then [0] else []
  | .char _, _, [] => []
  | .char holds, _, c :: _ => if holds c then [1] else []
  | .seq p q, start, cs => (p.ends start cs).flatMap fun i =>
      (q.ends (start && i == 0) (cs.drop i)).map fun j => i + j
  | .either p q, start, cs => p.ends start cs ++ q.ends start cs
  | .many p, start, cs => rounds p.ends cs.length start cs

/-- The match at the front that is tried first, by the length of what stands before the group and
of the group. -/
def first? (before group : SearchPattern) (start : Bool) (cs : List Char) : Option (Nat × Nat) :=
  ((before.ends start cs).flatMap fun i =>
    (group.ends (start && i == 0) (cs.drop i)).map fun j => (i, j)).head?

/-- What the group takes up in each match from left to right, for a pattern that takes up some
character. The number counts the characters that a match still takes up. -/
def captures (before group : SearchPattern) : Nat → Bool → List Char → List (List Char)
  | _, _, [] => []
  | skip + 1, _, _ :: cs => captures before group skip false cs
  | 0, start, c :: cs =>
      match first? before group start (c :: cs) with
      | some (i, j) => ((c :: cs).drop i).take j :: captures before group (i + j - 1) false cs
      | none => captures before group 0 false cs

/-- The characters one after the other. -/
def literal : List Char → SearchPattern
  | [] => .empty
  | c :: cs => .seq (.char fun d => d == c) (literal cs)

/-! ## What is tried first -/

theorem exists_head?_rounds (body : Bool → List Char → List Nat) (n : Nat) (start : Bool)
    (cs : List Char) : ∃ i, (rounds body n start cs).head? = some i := by
  cases n with
  | zero => exact ⟨0, rfl⟩
  | succ n =>
      rw [rounds, List.head?_append]
      cases List.head? _ with
      | none => exact ⟨0, rfl⟩
      | some i => exact ⟨i, rfl⟩

/-- A repetition always matches, so the first match of what stands before it is kept. -/
theorem head?_seq_many (p q : SearchPattern) (start : Bool) (cs : List Char) :
    ((seq p (many q)).ends start cs).head? = ((p.ends start cs).head?).bind fun i =>
      ((many q).ends (start && i == 0) (cs.drop i)).head?.map fun j => i + j := by
  rw [ends, List.head?_flatMap]
  cases p.ends start cs with
  | nil => rfl
  | cons i rest =>
      obtain ⟨j, hj⟩ := exists_head?_rounds q.ends (cs.drop i).length (start && i == 0) (cs.drop i)
      rw [List.findSome?_cons, List.head?_map, ends, hj]
      simp only [List.head?_cons, Option.bind_some, ends, hj]
      rfl

/-- One more round is tried before none. -/
theorem head?_rounds_succ (body : Bool → List Char → List Nat) (n : Nat) (start : Bool)
    (cs : List Char) (hpos : ∀ i ∈ body start cs, i ≠ 0) :
    (rounds body (n + 1) start cs).head? = ((body start cs).head?).elim (some 0) fun i =>
      (rounds body n false (cs.drop i)).head?.map fun j => i + j := by
  have hfilter : ((body start cs).filter fun i => i != 0) = body start cs := by
    rw [List.filter_eq_self]
    exact fun i hi => bne_iff_ne.2 (hpos i hi)
  rw [rounds, hfilter, List.head?_append, List.head?_flatMap]
  cases body start cs with
  | nil => rfl
  | cons i rest =>
      obtain ⟨j, hj⟩ := exists_head?_rounds body n false (cs.drop i)
      rw [List.findSome?_cons, List.head?_map, hj]
      simp only [List.head?_cons, Option.elim_some, hj]
      rfl

theorem ends_literal (text : List Char) (start : Bool) (cs : List Char) :
    (literal text).ends start cs = if text.isPrefixOf cs then [text.length] else [] := by
  induction text generalizing start cs with
  | nil => rfl
  | cons c text ih =>
      cases cs with
      | nil => rfl
      | cons d cs =>
          rw [literal, ends, ends, List.isPrefixOf]
          by_cases hd : d = c
          · subst hd
            rw [beq_self_eq_true, if_pos rfl, List.flatMap_singleton, List.drop_succ_cons,
              List.drop_zero, ih, Bool.true_and]
            split
            · rw [List.map_singleton, List.length_cons, Nat.add_comm]
            · rfl
          · rw [beq_eq_false_iff_ne.2 hd, beq_eq_false_iff_ne.2 (Ne.symm hd)]
            rfl

end SearchPattern

namespace DataPath

open SearchPattern

/-! ## The pattern -/

/-- Word characters, at least one. -/
def wordPattern : SearchPattern := .seq (.char Text.isWordChar) (.many (.char Text.isWordChar))

/-- A dot and a word. -/
def dottedPattern : SearchPattern := .seq (.char fun c => c == '.') wordPattern

/-- Words with a dot between each two. -/
def pathPattern : SearchPattern := .seq wordPattern (.many dottedPattern)

/-- The start of the text or a character that does not continue a word or path, and the keyword. -/
def leadPattern : SearchPattern :=
  .seq (.either .textStart (.char fun c => !continues c)) (literal keyword)

/-- How many word characters stand at the front. -/
def wordLength (cs : List Char) : Nat := (cs.takeWhile Text.isWordChar).length

theorem wordLength_word {c : Char} {cs : List Char} (h : Text.isWordChar c = true) :
    wordLength (c :: cs) = wordLength cs + 1 := by
  rw [wordLength, List.takeWhile_cons_of_pos h]
  rfl

theorem wordLength_other {c : Char} {cs : List Char} (h : ¬ Text.isWordChar c = true) :
    wordLength (c :: cs) = 0 := by
  rw [wordLength, List.takeWhile_cons_of_neg h]
  rfl

theorem exists_word_of_wordLength {cs : List Char} (h : wordLength cs ≠ 0) :
    ∃ c rest, cs = c :: rest ∧ Text.isWordChar c = true := by
  cases cs with
  | nil => exact absurd rfl h
  | cons c rest =>
      by_cases hword : Text.isWordChar c = true
      · exact ⟨c, rest, rfl, hword⟩
      · exact absurd (wordLength_other hword) h

theorem wordLength_drop (cs : List Char) : wordLength (cs.drop (wordLength cs)) = 0 := by
  induction cs with
  | nil => rfl
  | cons c cs ih =>
      by_cases hword : Text.isWordChar c = true
      · rw [wordLength_word hword, List.drop_succ_cons, ih]
      · rw [wordLength_other hword, List.drop_zero, wordLength_other hword]

theorem pathLength_true_eq_add (cs : List Char) :
    pathLength true cs = wordLength cs + pathLength true (cs.drop (wordLength cs)) := by
  induction cs with
  | nil => rfl
  | cons c cs ih =>
      by_cases hword : Text.isWordChar c = true
      · rw [pathLength_word hword, wordLength_word hword, List.drop_succ_cons, ih]
        omega
      · rw [wordLength_other hword, List.drop_zero, Nat.zero_add]

/-- A path goes on behind the word that it starts with. -/
theorem pathLength_false_eq_add {cs : List Char} (h : wordLength cs ≠ 0) :
    pathLength false cs = wordLength cs + pathLength true (cs.drop (wordLength cs)) := by
  obtain ⟨c, rest, rfl, hword⟩ := exists_word_of_wordLength h
  rw [← pathLength_true_eq_add, pathLength_word hword, pathLength_word hword]

/-! ## Paths as matches -/

theorem ne_zero_of_mem_ends_char {holds : Char → Bool} {start : Bool} {cs : List Char} :
    ∀ i ∈ (SearchPattern.char holds).ends start cs, i ≠ 0 := by
  intro i hi
  cases cs with
  | nil => cases hi
  | cons c cs =>
      rw [ends] at hi
      split at hi
      · rw [List.mem_singleton.1 hi]
        exact Nat.one_ne_zero
      · cases hi

theorem ne_zero_of_mem_ends_dotted {start : Bool} {cs : List Char} :
    ∀ i ∈ dottedPattern.ends start cs, i ≠ 0 := by
  intro i hi
  obtain ⟨first, hfirst, hi⟩ := List.mem_flatMap.1 hi
  obtain ⟨second, -, rfl⟩ := List.mem_map.1 hi
  have hne := ne_zero_of_mem_ends_char first hfirst
  omega

theorem head?_ends_many_word (start : Bool) (cs : List Char) :
    ((many (.char Text.isWordChar)).ends start cs).head? = some (wordLength cs) := by
  induction cs generalizing start with
  | nil => rfl
  | cons c cs ih =>
      rw [ends, List.length_cons, head?_rounds_succ _ _ _ _ ne_zero_of_mem_ends_char, ends]
      by_cases hword : Text.isWordChar c = true
      · have hrest := ih false
        rw [ends] at hrest
        rw [if_pos hword, wordLength_word hword, List.head?_cons, Option.elim_some,
          List.drop_succ_cons, List.drop_zero, hrest, Option.map_some, Nat.add_comm]
      · rw [if_neg hword, wordLength_other hword]
        rfl

theorem head?_ends_word (start : Bool) (cs : List Char) :
    (wordPattern.ends start cs).head? =
      if wordLength cs = 0 then none else some (wordLength cs) := by
  rw [wordPattern, head?_seq_many]
  cases cs with
  | nil => rfl
  | cons c cs =>
      rw [ends]
      by_cases hword : Text.isWordChar c = true
      · rw [if_pos hword, wordLength_word hword, if_neg (Nat.succ_ne_zero _), List.head?_cons,
          Option.bind_some, List.drop_succ_cons, List.drop_zero, head?_ends_many_word,
          Option.map_some, Nat.add_comm]
      · rw [if_neg hword, wordLength_other hword]
        rfl

theorem head?_ends_dotted (start : Bool) (rest : List Char) :
    (dottedPattern.ends start ('.' :: rest)).head? =
      if wordLength rest = 0 then none else some (1 + wordLength rest) := by
  have hdot : (SearchPattern.char fun c => c == '.').ends start ('.' :: rest) = [1] := rfl
  rw [dottedPattern, ends, hdot, List.flatMap_singleton, List.head?_map, List.drop_succ_cons,
    List.drop_zero, head?_ends_word]
  split
  · rfl
  · rfl

theorem ends_dotted_of_ne {c : Char} (h : c ≠ '.') (start : Bool) (rest : List Char) :
    dottedPattern.ends start (c :: rest) = [] := by
  rw [dottedPattern, ends, ends, beq_eq_false_iff_ne.2 h]
  rfl

/-- Behind a word the most rounds of a dot and a word take up the rest of the path. -/
theorem head?_rounds_dotted {n : Nat} {cs : List Char} (hn : cs.length ≤ n)
    (hcs : wordLength cs = 0) (start : Bool) :
    (rounds dottedPattern.ends n start cs).head? = some (pathLength true cs) := by
  induction n generalizing cs start with
  | zero =>
      rw [List.length_eq_zero_iff.1 (Nat.le_zero.1 hn)]
      rfl
  | succ n ih =>
      rw [head?_rounds_succ _ _ _ _ ne_zero_of_mem_ends_dotted]
      cases cs with
      | nil => rfl
      | cons c rest =>
          have hword : ¬ Text.isWordChar c = true := by
            intro hword
            rw [wordLength_word hword] at hcs
            exact Nat.succ_ne_zero _ hcs
          by_cases hdot : c = '.' ∧ wordLength rest ≠ 0
          · -- one round, then as many as there are behind it
            obtain ⟨rfl, hne⟩ := hdot
            have hlength : (rest.drop (wordLength rest)).length ≤ n := by
              rw [List.length_drop]
              rw [List.length_cons] at hn
              omega
            obtain ⟨d, rest', hrest, hd⟩ := exists_word_of_wordLength hne
            have hpath : pathLength true ('.' :: rest) = pathLength false rest + 1 := by
              rw [hrest]
              exact pathLength_dot hd
            rw [head?_ends_dotted, if_neg hne, Option.elim_some, Nat.add_comm 1,
              List.drop_succ_cons, ih hlength (wordLength_drop rest), hpath,
              pathLength_false_eq_add hne, Option.map_some, Nat.add_right_comm]
          · -- no round, and no path that goes on
            have hnone : (dottedPattern.ends start (c :: rest)).head? = none := by
              by_cases hc : c = '.'
              · subst hc
                rw [head?_ends_dotted, if_pos (not_not.1 fun h => hdot ⟨rfl, h⟩)]
              · rw [ends_dotted_of_ne hc]
                rfl
            have hstop : pathLength true (c :: rest) = 0 := by
              refine pathLength_eq_zero hword fun _ hc d rest' hrest hd => hdot ⟨hc, ?_⟩
              rw [hrest, wordLength_word hd]
              exact Nat.succ_ne_zero _
            rw [hnone, hstop]
            rfl

/-- The path that is tried first is the one that is measured. -/
theorem head?_ends_path (start : Bool) (cs : List Char) :
    (pathPattern.ends start cs).head? =
      if pathLength false cs = 0 then none else some (pathLength false cs) := by
  rw [pathPattern, head?_seq_many, head?_ends_word]
  by_cases hne : wordLength cs = 0
  · have hnone : pathLength false cs = 0 := by
      cases cs with
      | nil => rfl
      | cons c rest =>
          refine pathLength_eq_zero (fun hword => ?_) nofun
          rw [wordLength_word hword] at hne
          exact Nat.succ_ne_zero _ hne
    rw [if_pos hne, if_pos hnone]
    rfl
  · have hpath := pathLength_false_eq_add hne
    have hsome : pathLength false cs ≠ 0 := by omega
    rw [if_neg hne, if_neg hsome, Option.bind_some, ends,
      head?_rounds_dotted (Nat.le_refl _) (wordLength_drop cs), hpath]
    rfl

/-! ## References as matches -/

theorem pathLength_le_length (afterSegment : Bool) (cs : List Char) :
    pathLength afterSegment cs ≤ cs.length := by
  induction cs generalizing afterSegment with
  | nil => exact Nat.le_refl _
  | cons c cs ih =>
      by_cases hword : Text.isWordChar c = true
      · rw [pathLength_word hword]
        exact Nat.succ_le_succ (ih true)
      by_cases hdot : afterSegment = true ∧ c = '.' ∧ ∃ d rest, cs = d :: rest ∧
          Text.isWordChar d = true
      · obtain ⟨rfl, rfl, d, rest, rfl, hd⟩ := hdot
        rw [pathLength_dot hd]
        exact Nat.succ_le_succ (ih false)
      · rw [pathLength_eq_zero hword fun ha hc d rest hcs hd => hdot ⟨ha, hc, d, rest, hcs, hd⟩]
        exact Nat.zero_le _

theorem ends_lead (start : Bool) (c : Char) (cs : List Char) :
    leadPattern.ends start (c :: cs) =
      (if start && keyword.isPrefixOf (c :: cs) then [keyword.length] else []) ++
        if !continues c && keyword.isPrefixOf cs then [keyword.length + 1] else [] := by
  rw [leadPattern, ends, ends, ends, ends, List.flatMap_append]
  congr 1
  · cases start with
    | false => rfl
    | true =>
        rw [if_pos rfl, List.flatMap_singleton, List.drop_zero, ends_literal, Bool.true_and]
        split
        · rfl
        · rfl
  · cases continues c with
    | true => rfl
    | false =>
        rw [Bool.not_false, if_pos rfl, List.flatMap_singleton, List.drop_succ_cons,
          List.drop_zero, ends_literal, Bool.true_and]
        split
        · rfl
        · rfl

/-- Behind the keyword the path of a reference is tried first. -/
theorem head?_ends_path_of_keyword {cs : List Char} (h : keyword.isPrefixOf cs = true)
    (start : Bool) : (pathPattern.ends start (cs.drop keyword.length)).head? =
      (reference? cs).map List.length := by
  rw [head?_ends_path, reference?, afterKeyword?, if_pos h]
  dsimp only
  by_cases hnone : pathLength false (cs.drop keyword.length) = 0
  · rw [if_pos hnone, hnone]
    rfl
  · have hlength : ((cs.drop keyword.length).take
        (pathLength false (cs.drop keyword.length))).length =
          pathLength false (cs.drop keyword.length) := by
      rw [List.length_take]
      exact Nat.min_eq_left (pathLength_le_length false _)
    have hne : ((cs.drop keyword.length).take
        (pathLength false (cs.drop keyword.length))).isEmpty = false := by
      rw [List.isEmpty_eq_false_iff]
      exact List.ne_nil_of_length_pos (by omega)
    rw [if_neg hnone, hne, if_neg Bool.false_ne_true, Option.map_some, hlength]

theorem head?_behind_keyword {text cs : List Char} {k : Nat}
    (hdrop : text.drop k = cs.drop keyword.length) (start allowed : Bool) :
    ((if allowed && keyword.isPrefixOf cs then [k] else []).flatMap fun i =>
      (pathPattern.ends (start && i == 0) (text.drop i)).map fun j => (i, j)).head? =
        (if allowed then reference? cs else none).map fun path => (k, path.length) := by
  cases allowed with
  | false => rfl
  | true =>
      rw [Bool.true_and, if_pos rfl]
      by_cases hkeyword : keyword.isPrefixOf cs = true
      · rw [if_pos hkeyword, List.flatMap_singleton, List.head?_map, hdrop,
          head?_ends_path_of_keyword hkeyword, Option.map_map]
        rfl
      · rw [if_neg hkeyword, reference?, afterKeyword?, if_neg hkeyword]
        rfl

/-- A match starts with the keyword where the text starts, and otherwise with the character in
front of it. -/
theorem first?_eq (start : Bool) (c : Char) (cs : List Char) :
    first? leadPattern pathPattern start (c :: cs) =
      ((if start then reference? (c :: cs) else none).map fun path =>
        (keyword.length, path.length)).or
      ((if !continues c then reference? cs else none).map fun path =>
        (keyword.length + 1, path.length)) := by
  rw [first?, ends_lead, List.flatMap_append, List.head?_append, head?_behind_keyword rfl,
    head?_behind_keyword (List.drop_succ_cons ..)]

theorem captures_append (before group : SearchPattern) (taken cs : List Char) :
    captures before group taken.length false (taken ++ cs) = captures before group 0 false cs := by
  induction taken with
  | nil => rfl
  | cons c taken ih =>
      rw [List.cons_append, List.length_cons, captures]
      exact ih

theorem scan_true_of_none {cs : List Char} (h : reference? cs = none) :
    scan 0 true cs = scan 0 false cs := by
  cases cs with
  | nil => rfl
  | cons c cs => rw [scan, scan, h]

theorem take_eq_of_reference? {cs path : List Char} (h : reference? cs = some path) :
    (cs.drop keyword.length).take path.length = path :=
  (List.prefix_iff_eq_take.1 (reference?_eq_some_iff.1 h).2.front).symm

/-- Away from the start of the text the search remembers of the character in front only whether it
stands in the way. -/
theorem captures_false_eq_scan (cs : List Char) :
    captures leadPattern pathPattern 0 false cs = scan 0 false cs := by
  induction hlength : cs.length using Nat.strongRecOn generalizing cs with
  | ind n ih =>
      subst hlength
      cases cs with
      | nil => rfl
      | cons c cs =>
          have hnext : captures leadPattern pathPattern 0 false cs = scan 0 false cs :=
            ih cs.length (Nat.lt_succ_self _) cs rfl
          rw [captures, first?_eq, scan, if_neg Bool.false_ne_true, Option.map_none,
            Option.none_or]
          cases hc : continues c with
          | true => exact hnext
          | false =>
              rw [Bool.not_false, if_pos rfl]
              cases href : reference? cs with
              | none => exact hnext.trans (scan_true_of_none href).symm
              | some path =>
                  cases cs with
                  | nil => cases href
                  | cons d cs =>
                      -- the match takes up `c` as well, which the scan passes on its own
                      obtain ⟨-, taken, behind, rfl, hlength, -⟩ :=
                        exists_taken_of_reference? href
                      have hlt : behind.length < (c :: d :: (taken ++ behind)).length := by
                        rw [List.length_cons, List.length_cons, List.length_append]
                        omega
                      have hskip : keyword.length + 1 + path.length - 1 =
                          (d :: taken).length := by
                        rw [List.length_cons, hlength]
                        have hpos : 0 < keyword.length := by decide
                        omega
                      rw [scan, href]
                      dsimp only [Option.map_some]
                      rw [hskip, ← hlength, List.drop_succ_cons, take_eq_of_reference? href,
                        ← List.cons_append, captures_append, scan_append,
                        ih behind.length hlt behind rfl]

/-- At the start of the text a keyword needs no character in front of it. -/
theorem captures_true_eq_scan (cs : List Char) :
    captures leadPattern pathPattern 0 true cs = scan 0 true cs := by
  cases cs with
  | nil => rfl
  | cons c cs =>
      cases href : reference? (c :: cs) with
      | none =>
          -- then only a match with a character in front of its keyword is left
          have hsame : captures leadPattern pathPattern 0 true (c :: cs) =
              captures leadPattern pathPattern 0 false (c :: cs) := by
            rw [captures, captures, first?_eq, first?_eq, href, ite_self, ite_self]
          rw [hsame, captures_false_eq_scan, scan_true_of_none href]
      | some path =>
          obtain ⟨-, taken, behind, rfl, hlength, -⟩ := exists_taken_of_reference? href
          rw [captures, first?_eq, scan, if_pos rfl, href]
          dsimp only [Option.map_some, Option.some_or]
          rw [← hlength, take_eq_of_reference? href, captures_append, scan_append,
            captures_false_eq_scan]

/-- The paths that an expression refers to are what the group of the pattern takes up, match after
match: one path for each position at which a reference starts, in the order of the positions, and
nothing else. -/
theorem extract_exact (expression : String) :
    extract expression =
      (captures leadPattern pathPattern 0 true expression.toList).map String.ofList ∧
    ∃ positions : List Nat,
      positions.Pairwise (· < ·) ∧ (∀ i, i ∈ positions ↔ StartsAt true expression.toList i) ∧
        List.Forall₂ (fun i (path : String) =>
          LongestPath (expression.toList.drop (i + keyword.length)) path.toList)
          positions (extract expression) := by
  constructor
  · rw [captures_true_eq_scan, extract]
  · obtain ⟨positions, hordered, hmem, hpaths⟩ := exists_positions expression.toList true
    refine ⟨positions, hordered, hmem, ?_⟩
    rw [extract, scan_eq_references, List.forall₂_map_right_iff]
    refine hpaths.imp fun i path hpath => ?_
    rw [String.toList_ofList]
    exact hpath

/-- The keyword itself may stand as a segment, and a dot behind the last segment is left. -/
example : extract "data.data.x + data.y. (metadata.z)" = ["data.x", "y"] := by decide +kernel

end DataPath

end SchemaCatalog
