import Mathlib.Data.List.Basic
import SchemaCatalog.Proofs.Schema.Members

/-!
# Duplicate names

The names that a schema has more than once are found at their second occurrences, the declared
properties coming before the computed ones, and are reported in the order of these
(`Schema.duplicateNames_reported`). That is the order in which they occur first only as long as
no name is taken up again before an earlier one is.
-/

set_option autoImplicit false

namespace SchemaCatalog

namespace Schema

/-- The names that occur more than once in a list, each once, in the order of their occurrences
with a number; occurrences are counted from zero. -/
structure Reports (names : List String) (occurrence : Nat) (reported : List String) : Prop where
  nodup : reported.Nodup
  mem_iff : ∀ name, name ∈ reported ↔ 2 ≤ names.count name
  ordered : reported.Pairwise fun a b =>
    names.idxOfNth a occurrence < names.idxOfNth b occurrence

/-- An occurrence behind those in the first part of a list lies in the second part. -/
theorem idxOfNth_append {before : List String} {name : String} {n : Nat}
    (h : before.count name ≤ n) (rest : List String) :
    (before ++ rest).idxOfNth name n =
      before.length + rest.idxOfNth name (n - before.count name) := by
  induction before generalizing n with
  | nil => simp
  | cons first before ih =>
      by_cases hfirst : first = name
      · subst hfirst
        rw [List.count_cons_self] at h
        obtain ⟨m, rfl⟩ : ∃ m, n = m + 1 := ⟨n - 1, by omega⟩
        rw [List.cons_append, List.idxOfNth_cons_succ_of_beq (by simp), ih (by omega),
          List.count_cons_self, List.length_cons, Nat.add_sub_add_right]
        omega
      · rw [List.count_cons_of_ne hfirst] at h
        rw [List.cons_append, List.idxOfNth_cons_of_not_beq (by simpa using hfirst), ih h,
          List.count_cons_of_ne hfirst, List.length_cons]
        omega

/-- What is known of the names before a place: those that occur, and those that occur again. -/
structure Noted (before seen reported : List String) : Prop where
  seen_iff : ∀ name, name ∈ seen ↔ 1 ≤ before.count name
  reported_iff : ∀ name, name ∈ reported ↔ 2 ≤ before.count name

theorem noted_nil : Noted [] [] [] := ⟨fun _ => by simp, fun _ => by simp⟩

theorem count_concat (before : List String) (name other : String) :
    (before ++ [name]).count other = before.count other + if name = other then 1 else 0 := by
  rw [List.count_append, List.count_singleton]
  simp

/-- One more name changes nothing for a bound that it does not reach. -/
theorem le_count_concat_iff {before : List String} {name : String} {k : Nat}
    (h : before.count name + 1 ≠ k) (other : String) :
    k ≤ (before ++ [name]).count other ↔ k ≤ before.count other := by
  rw [count_concat]
  split
  · rename_i hother
    rw [← hother]
    omega
  · omega

theorem le_count_concat_iff_of_eq {before : List String} {name : String} {k : Nat}
    (h : before.count name + 1 = k) (other : String) :
    k ≤ (before ++ [name]).count other ↔ other = name ∨ k ≤ before.count other := by
  rw [count_concat]
  split
  · rename_i hother
    rw [← hother]
    exact iff_of_true (by omega) (Or.inl rfl)
  · rename_i hother
    simp [Ne.symm hother]

/-- A name that occurred once before is reported now. -/
theorem Noted.again {before seen reported : List String} (h : Noted before seen reported)
    {name : String} (hcount : before.count name = 1) :
    (∀ rest, repeats seen reported (name :: rest) = name :: repeats seen (name :: reported) rest) ∧
      Noted (before ++ [name]) seen (name :: reported) := by
  have hseen : name ∈ seen := (h.seen_iff name).2 (by omega)
  have hreported : name ∉ reported := by
    rw [h.reported_iff]
    omega
  refine ⟨fun rest => ?_, fun other => ?_, fun other => ?_⟩
  · rw [repeats, if_pos hseen, if_neg hreported]
  · rw [le_count_concat_iff (by omega), h.seen_iff]
  · rw [le_count_concat_iff_of_eq (by omega), List.mem_cons, h.reported_iff]

/-- A name that did not occur, or occurred twice, is passed over. -/
theorem Noted.skip {before seen reported : List String} (h : Noted before seen reported)
    {name : String} (hcount : before.count name ≠ 1) :
    ∃ seen', (∀ rest, repeats seen reported (name :: rest) = repeats seen' reported rest) ∧
      Noted (before ++ [name]) seen' reported := by
  have hreported : ∀ other, other ∈ reported ↔ 2 ≤ (before ++ [name]).count other := by
    intro other
    rw [le_count_concat_iff (by omega), h.reported_iff]
  by_cases hin : name ∈ seen
  · have honce : 1 ≤ before.count name := (h.seen_iff name).1 hin
    have hagain : name ∈ reported := (h.reported_iff name).2 (by omega)
    refine ⟨seen, fun rest => ?_, fun other => ?_, hreported⟩
    · rw [repeats, if_pos hin, if_pos hagain]
    · rw [le_count_concat_iff (by omega), h.seen_iff]
  · have hnew : before.count name = 0 := by
      rw [h.seen_iff] at hin
      omega
    refine ⟨name :: seen, fun rest => by rw [repeats, if_neg hin], fun other => ?_, hreported⟩
    rw [le_count_concat_iff_of_eq (by omega), List.mem_cons, h.seen_iff]

/-- Behind some names, those are reported that occur a second time there, in the order in which
they do. -/
theorem Noted.reports {before seen reported : List String} (h : Noted before seen reported)
    (rest : List String) :
    (repeats seen reported rest).Nodup ∧
      (∀ name, name ∈ repeats seen reported rest ↔
        ¬ 2 ≤ before.count name ∧ 2 ≤ (before ++ rest).count name) ∧
      (repeats seen reported rest).Pairwise fun a b =>
        (before ++ rest).idxOfNth a 1 < (before ++ rest).idxOfNth b 1 := by
  induction rest generalizing before seen reported with
  | nil =>
      refine ⟨List.nodup_nil, fun name => ?_, List.Pairwise.nil⟩
      rw [List.append_nil]
      exact iff_of_false List.not_mem_nil fun hcount => hcount.1 hcount.2
  | cons name rest ih =>
      have hsplit : before ++ name :: rest = (before ++ [name]) ++ rest := by simp
      by_cases hcount : before.count name = 1
      · obtain ⟨hstep, hnoted⟩ := h.again hcount
        obtain ⟨hnodup, hmem, hordered⟩ := ih hnoted
        have htwice : 2 ≤ (before ++ [name]).count name :=
          (le_count_concat_iff_of_eq (by omega) name).2 (Or.inl rfl)
        have honce : name ∉ repeats seen (name :: reported) rest :=
          fun hin => ((hmem name).1 hin).1 htwice
        -- what is reported behind the name occurs its second time behind it
        have hplace : (before ++ name :: rest).idxOfNth name 1 = before.length := by
          rw [idxOfNth_append (Nat.le_of_eq hcount), hcount,
            List.idxOfNth_cons_zero_of_beq (by simp)]
          rfl
        rw [hstep]
        refine ⟨List.nodup_cons.2 ⟨honce, hnodup⟩, fun other => ?_,
          List.pairwise_cons.2 ⟨fun other hother => ?_, hsplit ▸ hordered⟩⟩
        · rw [List.mem_cons, hmem, hsplit, le_count_concat_iff_of_eq (by omega), not_or]
          by_cases hother : other = name
          · have htotal : 2 ≤ ((before ++ [name]) ++ rest).count name := by
              rw [List.count_append]
              omega
            rw [hother]
            exact iff_of_true (Or.inl rfl) ⟨by omega, htotal⟩
          · simp [hother]
        · have hbefore := ((hmem other).1 hother).1
          rw [hplace, hsplit, idxOfNth_append (by omega), List.length_append, List.length_singleton]
          omega
      · obtain ⟨seen', hstep, hnoted⟩ := h.skip hcount
        obtain ⟨hnodup, hmem, hordered⟩ := ih hnoted
        rw [hstep, hsplit]
        refine ⟨hnodup, fun other => ?_, hordered⟩
        rw [hmem, le_count_concat_iff (by omega)]

/-- Names are reported in the order of their first occurrences as well when they occur again in
the order in which they occur first. -/
theorem Reports.first_iff {names reported : List String} (h : Reports names 1 reported) :
    Reports names 0 reported ↔ ∀ a b, 2 ≤ names.count a → 2 ≤ names.count b →
      names.idxOfNth a 0 < names.idxOfNth b 0 → names.idxOfNth a 1 < names.idxOfNth b 1 := by
  constructor
  · intro hfirst a b ha hb hlt
    obtain ⟨i, hi, rfl⟩ := List.getElem_of_mem ((h.mem_iff a).2 ha)
    obtain ⟨j, hj, rfl⟩ := List.getElem_of_mem ((h.mem_iff b).2 hb)
    rcases Nat.lt_trichotomy i j with hij | rfl | hji
    · exact List.pairwise_iff_getElem.1 h.ordered i j hi hj hij
    · exact absurd hlt (Nat.lt_irrefl _)
    · have hback := List.pairwise_iff_getElem.1 hfirst.ordered j i hj hi hji
      omega
  · intro hagree
    refine ⟨h.nodup, h.mem_iff, (h.ordered.and h.nodup).imp_of_mem ?_⟩
    rintro a b ha hb ⟨hlt, hne⟩
    by_contra hge
    -- different names have different first occurrences
    have hother : names.idxOfNth b 0 < names.idxOfNth a 0 := by
      have htwice : 2 ≤ names.count a := (h.mem_iff a).1 ha
      have hmem : a ∈ names := List.count_pos_iff.1 (by omega)
      have hplaces : names.idxOfNth a 0 ≠ names.idxOfNth b 0 := by
        rw [List.idxOfNth_zero, List.idxOfNth_zero]
        exact fun heq => hne ((List.idxOf_inj hmem).1 heq)
      omega
    have hback := hagree b a ((h.mem_iff b).1 hb) ((h.mem_iff a).1 ha) hother
    omega

/-- The names that a schema has more than once, declared or computed, are reported once each, in
the order of their second occurrences. This is the order of their first occurrences exactly when
they occur again in that order. -/
theorem duplicateNames_reported (s : Schema) :
    let names := s.properties.map Property.name ++ s.computed.map ComputedProperty.name
    Reports names 1 s.duplicateNames ∧
      (Reports names 0 s.duplicateNames ↔ ∀ a b, 2 ≤ names.count a → 2 ≤ names.count b →
        names.idxOfNth a 0 < names.idxOfNth b 0 → names.idxOfNth a 1 < names.idxOfNth b 1) := by
  intro names
  have hnames : s.members.map Prod.fst = names := by
    simp [members, names, Function.comp_def]
  obtain ⟨hnodup, hmem, hordered⟩ := noted_nil.reports names
  have hreports : Reports names 1 s.duplicateNames := by
    rw [duplicateNames, hnames]
    exact ⟨hnodup, fun name => by simp [hmem name], hordered⟩
  exact ⟨hreports, hreports.first_iff⟩

/-- The first name is the last one to occur again. -/
theorem duplicateNames_crossed :
    let text (name : String) : Property := ⟨name, .scalar .string, []⟩
    let s : Schema := ⟨none, "S", "", none, [text "a", text "b", text "b", text "a"], [], 0⟩
    let names := s.properties.map Property.name ++ s.computed.map ComputedProperty.name
    s.duplicateNames = ["b", "a"] ∧ ¬ Reports names 0 s.duplicateNames := by
  intro text s names
  have hduplicates : s.duplicateNames = ["b", "a"] := by decide
  refine ⟨hduplicates, fun h => ?_⟩
  have hordered := h.ordered
  rw [hduplicates] at hordered
  have hlt := (List.pairwise_cons.1 hordered).1 "a" (List.mem_singleton.2 rfl)
  exact absurd hlt (by decide)

end Schema

end SchemaCatalog
