import SchemaCatalog.Text.Basic

/-!
# Segments of dotted texts

Taking a text apart gives segments without a dot (`plain_of_mem_segments`). Such segments
are found again in the text that they are written to (`segments_dotted`), so no two lists of
them are written alike. A text of more than one segment holds a dot and is not blank.
-/

set_option autoImplicit false

namespace SchemaCatalog.Text

/-! ## Plain segments -/

/-- A segment that holds no dot. -/
def Plain (segment : String) : Prop := '.' ∉ segment.toList

/-- No part of a list that is split holds the separator. -/
theorem not_mem_of_mem_splitOn {separator : Char} {cs part : List Char}
    (h : part ∈ cs.splitOn separator) : separator ∉ part := by
  induction cs generalizing part with
  | nil =>
      rw [List.splitOn_nil, List.mem_singleton] at h
      rw [h]
      exact List.not_mem_nil
  | cons c cs ih =>
      obtain ⟨first, rest, hparts⟩ := List.exists_cons_of_ne_nil (List.splitOn_ne_nil separator cs)
      rw [List.splitOn_cons_eq_if_modifyHead] at h
      by_cases hc : c = separator
      · rw [if_pos (beq_iff_eq.2 hc)] at h
        rcases List.mem_cons.1 h with rfl | h
        · exact List.not_mem_nil
        · exact ih h
      · -- the character goes in front of the first part of the rest
        rw [if_neg (fun heq => hc (beq_iff_eq.1 heq)), hparts, List.modifyHead_cons] at h
        rcases List.mem_cons.1 h with rfl | h
        · have hfirst := ih (hparts ▸ List.mem_cons_self)
          exact List.not_mem_cons_of_ne_of_not_mem (Ne.symm hc) hfirst
        · exact ih (hparts ▸ List.mem_cons_of_mem first h)

theorem plain_of_mem_segments {s segment : String} (h : segment ∈ segments s) :
    Plain segment := by
  obtain ⟨part, hpart, rfl⟩ := List.mem_map.1 h
  rw [Plain, String.toList_ofList]
  exact not_mem_of_mem_splitOn hpart

/-- Nothing is lost of plain segments that are written to a text. -/
theorem segments_dotted {parts : List String} (hne : parts ≠ [])
    (hplain : ∀ part ∈ parts, Plain part) : segments (dotted parts) = parts := by
  have hparts : ∀ part ∈ parts.map String.toList, '.' ∉ part := by
    intro part hpart
    obtain ⟨segment, hsegment, rfl⟩ := List.mem_map.1 hpart
    exact hplain segment hsegment
  have hdot : ".".toList = ['.'] := rfl
  have hback : String.ofList ∘ String.toList = id := funext fun _ => String.ofList_toList
  rw [segments, dotted, String.toList_intercalate, hdot,
    List.splitOn_intercalate '.' hparts (fun hnil => hne (List.map_eq_nil_iff.1 hnil)),
    List.map_map, hback, List.map_id]

theorem dotted_inj {a b : List String} (ha : a ≠ []) (hb : b ≠ [])
    (hplainA : ∀ part ∈ a, Plain part) (hplainB : ∀ part ∈ b, Plain part)
    (h : dotted a = dotted b) : a = b := by
  rw [← segments_dotted ha hplainA, h, segments_dotted hb hplainB]

theorem dotted_singleton (segment : String) : dotted [segment] = segment :=
  String.intercalate_singleton

theorem dotted_snoc {before : List String} (h : before ≠ []) (segment : String) :
    dotted (before ++ [segment]) = dotted before ++ "." ++ segment := by
  rw [dotted, String.intercalate_append_of_ne_nil h (List.cons_ne_nil segment []),
    String.intercalate_singleton, dotted]

theorem lastSegment_dotted_snoc {before : List String} {segment : String}
    (hplain : ∀ part ∈ before ++ [segment], Plain part) :
    lastSegment (dotted (before ++ [segment])) = segment := by
  have hne : before ++ [segment] ≠ [] := List.append_ne_nil_of_right_ne_nil _ (List.cons_ne_nil _ _)
  rw [lastSegment, segments_dotted hne hplain, List.getLastD_eq_getLast?, List.getLast?_concat,
    Option.getD_some]

/-! ## Blank and empty texts -/

/-- Only the first segment can be all there is, and be blank. -/
theorem isBlank_dotted_snoc (before : List String) (segment : String) :
    isBlank (dotted (before ++ [segment])) = true ↔ before = [] ∧ isBlank segment = true := by
  by_cases hbefore : before = []
  · rw [hbefore, List.nil_append, dotted_singleton]
    exact ⟨fun h => ⟨rfl, h⟩, fun h => h.2⟩
  · constructor
    · intro h
      rw [dotted_snoc hbefore, isBlank_eq_true_iff] at h
      have hdot := h '.' (by simp)
      exact absurd hdot (by decide)
    · rintro ⟨rfl, -⟩
      exact absurd rfl hbefore

theorem dotted_eq_empty_iff (parts : List String) :
    dotted parts = "" ↔ parts = [] ∨ parts = [""] := by
  constructor
  · intro h
    rcases List.eq_nil_or_concat parts with rfl | ⟨before, segment, rfl⟩
    · exact Or.inl rfl
    · by_cases hbefore : before = []
      · rw [hbefore, List.concat_eq_append, List.nil_append, dotted_singleton] at h
        rw [hbefore, h]
        exact Or.inr rfl
      · rw [List.concat_eq_append, dotted_snoc hbefore] at h
        have hlength := congrArg (fun s => s.toList.length) h
        simp at hlength
  · rintro (rfl | rfl)
    · rfl
    · exact dotted_singleton ""

end SchemaCatalog.Text
