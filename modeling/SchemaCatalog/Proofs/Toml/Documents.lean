import SchemaCatalog.Proofs.Keyed
import SchemaCatalog.Proofs.Toml.Strings

/-!
# Documents made of sections

A section is a header with a bare name and lines behind it, each with a bare key and a value.
A line that is read adds its key to the last section (`Reads.line`), and a header begins a new
one (`Reads.header`). With keys that do not come twice, a document of sections is read as a table
that has the sections in their order, each with its lines in theirs (`Reads.section`).
-/

set_option autoImplicit false

namespace SchemaCatalog.Toml

/-! ## Bare keys -/

/-- A key that needs no quotes. -/
def IsBare (key : String) : Prop := key.toList ≠ [] ∧ ∀ c ∈ key.toList, isKeyChar c = true

instance (key : String) : Decidable (IsBare key) :=
  decidable_of_iff (key.toList ≠ [] ∧ key.toList.all isKeyChar = true) (by simp [IsBare])

/-- A character that neither white space nor a comment nor a line end begins with. -/
structure Opens (c : Char) : Prop where
  blank : isBlankChar c = false
  comment : c ≠ '#'
  line : c ≠ '\n'
  lineReturn : c ≠ '\x0d'

theorem opens_of_isKeyChar {c : Char} (h : isKeyChar c = true) : Opens c where
  blank := by
    rw [isBlankChar, Bool.or_eq_false_iff, beq_eq_false_iff_ne, beq_eq_false_iff_ne]
    constructor
    · rintro rfl
      exact absurd h (by decide)
    · rintro rfl
      exact absurd h (by decide)
  comment := by
    rintro rfl
    exact absurd h (by decide)
  line := by
    rintro rfl
    exact absurd h (by decide)
  lineReturn := by
    rintro rfl
    exact absurd h (by decide)

theorem Opens.skipBlank {c : Char} (h : Opens c) (rest : List Char) :
    skipBlank (c :: rest) = c :: rest :=
  List.dropWhile_cons_of_neg (by simp [h.blank])

theorem Opens.lineEnd? {c : Char} (h : Opens c) (rest : List Char) :
    lineEnd? (c :: rest) = none := by
  rw [Toml.lineEnd?]
  · exact fun cs heq => h.line (List.cons.inj heq).1
  · exact fun cs heq => h.lineReturn (List.cons.inj heq).1

/-- Nothing is skipped in front of it. -/
theorem Opens.skipLines {c : Char} (h : Opens c) (rest : List Char) (fuel : Nat) :
    skipLines fuel (c :: rest) = c :: rest := by
  have hcomment : skipComment (c :: rest) = c :: rest := by
    rw [skipComment]
    exact fun cs heq => h.comment (List.cons.inj heq).1
  cases fuel with
  | zero => rfl
  | succ fuel =>
      rw [Toml.skipLines, h.skipBlank, hcomment, h.lineEnd?]

theorem IsBare.exists_first {key : String} (h : IsBare key) :
    ∃ first others, key.toList = first :: others ∧ isKeyChar first = true := by
  obtain ⟨hne, hchars⟩ := h
  obtain ⟨first, others, htext⟩ := List.exists_cons_of_ne_nil hne
  exact ⟨first, others, htext, hchars first (by rw [htext]; exact List.mem_cons_self)⟩

/-- A bare key does not begin with a quote or a bracket. -/
theorem IsBare.append_ne {key : String} (h : IsBare key) {q : Char} (hq : isKeyChar q = false)
    (rest others : List Char) : key.toList ++ rest = q :: others → False := by
  obtain ⟨first, behind, htext, hfirst⟩ := h.exists_first
  intro heq
  rw [htext] at heq
  rw [(List.cons.inj heq).1, hq] at hfirst
  exact Bool.false_ne_true hfirst

/-- A bare key ends where another character comes. -/
theorem keyPart?_bare {key : String} (hkey : IsBare key) {c : Char} (hc : isKeyChar c = false)
    (rest : List Char) : keyPart? (key.toList ++ c :: rest) = some (key, c :: rest) := by
  have htake : (key.toList ++ c :: rest).takeWhile isKeyChar = key.toList := by
    rw [List.takeWhile_append_of_pos hkey.2, List.takeWhile_cons_of_neg (by simp [hc]),
      List.append_nil]
  have hempty : key.toList.isEmpty = false := by simpa using hkey.1
  rw [keyPart?]
  · simp [htake, hempty, String.ofList_toList]
  · exact hkey.append_ne (by decide) _
  · exact hkey.append_ne (by decide) _

/-- Behind a bare key comes what is not white space, and not a dot. -/
theorem key?_bare {key : String} (hkey : IsBare key) {c : Char} {rest : List Char}
    (hc : isKeyChar c = false) (hdot : (skipBlank (c :: rest)).head? ≠ some '.') :
    key? (key.toList ++ c :: rest) = some ([key], skipBlank (c :: rest)) := by
  have hskip : skipBlank (key.toList ++ c :: rest) = key.toList ++ c :: rest := by
    obtain ⟨first, others, htext, hfirst⟩ := hkey.exists_first
    rw [htext]
    exact (opens_of_isKeyChar hfirst).skipBlank _
  have hparts : keyParts? ((key.toList ++ c :: rest).length + 1) (key.toList ++ c :: rest) =
      some ([key], skipBlank (c :: rest)) := by
    rw [keyParts?, hskip, keyPart?_bare hkey hc]
    simp only
    split
    · rename_i more heq
      exact absurd (by rw [heq, List.head?_cons]) hdot
    · rfl
  rw [key?, hparts]
  rfl

/-! ## Entries of tables -/

theorem setEntry_append {entries : List (String × Toml)} {key : String}
    (h : key ∉ Keyed.keys entries) (v w : Toml) (behind : List (String × Toml)) :
    setEntry (entries ++ (key, v) :: behind) key w = entries ++ (key, w) :: behind := by
  induction entries with
  | nil => simp [setEntry]
  | cons e rest ih =>
      obtain ⟨k, old⟩ := e
      rw [Keyed.keys, List.map_cons, List.mem_cons, not_or] at h
      rw [List.cons_append, setEntry, if_neg (Ne.symm h.1), ih h.2]
      rfl

/-- A new key comes behind the others. -/
theorem setEntry_new {entries : List (String × Toml)} {key : String}
    (h : key ∉ Keyed.keys entries) (v : Toml) :
    setEntry entries key v = entries ++ [(key, v)] := by
  induction entries with
  | nil => rfl
  | cons e rest ih =>
      obtain ⟨k, old⟩ := e
      rw [Keyed.keys, List.map_cons, List.mem_cons, not_or] at h
      rw [setEntry, if_neg (Ne.symm h.1), ih h.2]
      rfl

theorem get?_last {entries : List (String × Toml)} {key : String}
    (h : key ∉ Keyed.keys entries) (v : Toml) :
    Keyed.get? (entries ++ [(key, v)]) key = some v := by
  induction entries with
  | nil => simp [Keyed.get?]
  | cons e rest ih =>
      obtain ⟨k, old⟩ := e
      rw [Keyed.keys, List.map_cons, List.mem_cons, not_or] at h
      rw [List.cons_append, Keyed.get?, if_neg (Ne.symm h.1), ih h.2]

/-- A header of a new name begins an empty table behind the others. -/
theorem addHeaderAt_new {root : List (String × Toml)} {name : String}
    (h : name ∉ Keyed.keys root) :
    addHeaderAt addHeader [name] root = some (root ++ [(name, .table .header [])]) := by
  have hnone : Keyed.get? root name = none := Keyed.get?_eq_none_iff.2 h
  rw [addHeaderAt]
  simp [within, addHeader, hnone, setEntry_new h]

/-- A line adds a new key to the table of the last header. -/
theorem addLine_new {root entries : List (String × Toml)} {name key : String} (v : Toml)
    (hname : name ∉ Keyed.keys root) (hkey : key ∉ Keyed.keys entries) :
    within false (addLine [key] v) [name] .header (root ++ [(name, .table .header entries)]) =
      some (root ++ [(name, .table .header (entries ++ [(key, v)]))]) := by
  have hnone : Keyed.get? entries key = none := Keyed.get?_eq_none_iff.2 hkey
  have hadd : addLine [key] v .header entries = some (entries ++ [(key, v)]) := by
    simp [addLine, within, addValue, Keyed.hasKey, hnone, setEntry_new hkey]
  rw [within, get?_last hname]
  simp [within, hadd, setEntry_append hname]

/-! ## Sections -/

/-- A text is read as a value where it makes up the rest of a line. -/
def WrittenAs (text : String) (v : Toml) : Prop :=
  ∀ (fuel : Nat) (rest : List Char),
    value? (fuel + 1) maxDepth (skipBlank (' ' :: (text.toList ++ '\n' :: rest))) =
      some (v, '\n' :: rest)

/-- The lines of a document are read, if there are steps for each character. -/
def Reads (current : List String) (root : List (String × Toml)) (cs : List Char)
    (out : List (String × Toml)) : Prop :=
  ∀ fuel, cs.length < fuel → readLines fuel current root cs = .ok out

theorem finishLine?_newline (rest : List Char) : finishLine? ('\n' :: rest) = some rest := rfl

theorem opens_bracket : Opens '[' := ⟨by decide, by decide, by decide, by decide⟩

theorem reads_end (current : List String) (root : List (String × Toml)) :
    Reads current root [] root := by
  intro fuel hfuel
  obtain ⟨fuel, rfl⟩ := Nat.exists_eq_succ_of_ne_zero (Nat.ne_of_gt hfuel)
  rfl

section Steps

variable {current : List String} {root out : List (String × Toml)} {rest : List Char}
  {name : String}

/-- An empty line between sections does not count. -/
theorem Reads.empty_line (h : Reads current root ('[' :: rest) out) :
    Reads current root ('\n' :: '[' :: rest) out := by
  intro fuel hfuel
  rw [List.length_cons] at hfuel
  obtain ⟨fuel, rfl⟩ : ∃ f, fuel = f + 1 := ⟨fuel - 1, by omega⟩
  have hskip : skipLines (('\n' :: '[' :: rest).length + 1) ('\n' :: '[' :: rest) = '[' :: rest :=
    opens_bracket.skipLines rest _
  have hkeep : skipLines (('[' :: rest).length + 1) ('[' :: rest) = '[' :: rest :=
    opens_bracket.skipLines rest _
  have hread := h (fuel + 1) (by omega)
  rw [readLines, hkeep] at hread
  rw [readLines, hskip]
  exact hread

theorem Reads.header (hname : IsBare name) (hnew : name ∉ Keyed.keys root)
    (h : Reads [name] (root ++ [(name, .table .header [])]) rest out) :
    Reads current root ('[' :: (name.toList ++ ']' :: '\n' :: rest)) out := by
  intro fuel hfuel
  simp only [List.length_cons, List.length_append] at hfuel
  obtain ⟨fuel, rfl⟩ : ∃ f, fuel = f + 1 := ⟨fuel - 1, by omega⟩
  have hpath : headerPath? [']'] (name.toList ++ ']' :: '\n' :: rest) =
      some ([name], '\n' :: rest) := by
    have hdot : (skipBlank (']' :: '\n' :: rest)).head? ≠ some '.' :=
      fun heq => absurd (Option.some.inj heq) (by decide)
    rw [headerPath?, key?_bare hname (by decide) hdot]
    rfl
  have hone := hname.append_ne (q := '[') (by decide) (']' :: '\n' :: rest)
  rw [readLines, opens_bracket.skipLines]
  split
  · rename_i heq
    cases heq
  · rename_i line heq
    exact (hone line (List.cons.inj heq).2).elim
  · rename_i line _ heq
    obtain rfl := (List.cons.inj heq).2
    rw [hpath]
    simp only [addHeaderAt_new hnew, finishLine?_newline]
    exact h fuel (by omega)
  · rename_i hnot
    exact (hnot _ rfl).elim

theorem Reads.line {entries : List (String × Toml)} {key text : String} {v : Toml}
    (hkey : IsBare key) (hname : name ∉ Keyed.keys root) (hnew : key ∉ Keyed.keys entries)
    (htext : WrittenAs text v)
    (h : Reads [name] (root ++ [(name, .table .header (entries ++ [(key, v)]))]) rest out) :
    Reads [name] (root ++ [(name, .table .header entries)])
      (key.toList ++ ' ' :: '=' :: ' ' :: (text.toList ++ '\n' :: rest)) out := by
  intro fuel hfuel
  simp only [List.length_cons, List.length_append] at hfuel
  obtain ⟨fuel, rfl⟩ : ∃ f, fuel = f + 1 := ⟨fuel - 1, by omega⟩
  have hsign : key? (key.toList ++ ' ' :: '=' :: ' ' :: (text.toList ++ '\n' :: rest)) =
      some ([key], '=' :: ' ' :: (text.toList ++ '\n' :: rest)) :=
    key?_bare hkey (by decide) fun heq => absurd (Option.some.inj heq) (by decide)
  have hskip : skipLines ((key.toList ++ ' ' :: '=' :: ' ' :: (text.toList ++ '\n' :: rest)).length
        + 1) (key.toList ++ ' ' :: '=' :: ' ' :: (text.toList ++ '\n' :: rest)) =
      key.toList ++ ' ' :: '=' :: ' ' :: (text.toList ++ '\n' :: rest) := by
    obtain ⟨first, others, htext, hfirst⟩ := hkey.exists_first
    rw [htext]
    exact (opens_of_isKeyChar hfirst).skipLines _ _
  have hbracket := hkey.append_ne (q := '[') (by decide)
    (' ' :: '=' :: ' ' :: (text.toList ++ '\n' :: rest))
  rw [readLines, hskip]
  split
  · rename_i heq
    obtain ⟨first, others, htext, -⟩ := hkey.exists_first
    rw [htext] at heq
    cases heq
  · rename_i heq
    exact (hbracket _ heq).elim
  · rename_i heq
    exact (hbracket _ heq).elim
  · rw [hsign]
    simp only [htext _ rest, addLine_new v hname hnew, finishLine?_newline]
    exact h fuel (by omega)

/-- A line of a section: a key, a value, and the text of the value. -/
structure Line where
  key : String
  text : String
  value : Toml

/-- A line as it is written, up to its end. -/
def Line.chars (line : Line) : List Char :=
  line.key.toList ++ ' ' :: '=' :: ' ' :: (line.text.toList ++ ['\n'])

/-- A line has a bare key, and its text is read as its value. -/
structure Line.Sound (line : Line) : Prop where
  bare : IsBare line.key
  written : WrittenAs line.text line.value

/-- The lines of a section come behind those that were read. -/
theorem Reads.lines {lines : List Line} {entries : List (String × Toml)}
    (hlines : ∀ line ∈ lines, line.Sound) (hname : name ∉ Keyed.keys root)
    (hkeys : (Keyed.keys entries ++ lines.map Line.key).Nodup)
    (h : Reads [name] (root ++ [(name, .table .header
      (entries ++ lines.map fun line => (line.key, line.value)))]) rest out) :
    Reads [name] (root ++ [(name, .table .header entries)]) (lines.flatMap Line.chars ++ rest)
      out := by
  induction lines generalizing entries with
  | nil => simpa using h
  | cons line lines ih =>
      obtain ⟨hline, hothers⟩ := List.forall_mem_cons.1 hlines
      have hnew : line.key ∉ Keyed.keys entries := by
        intro hin
        exact (List.nodup_append.1 hkeys).2.2 _ hin _ List.mem_cons_self rfl
      have hlater : (Keyed.keys (entries ++ [(line.key, line.value)]) ++
          lines.map Line.key).Nodup := by
        simpa [Keyed.keys] using hkeys
      have hbehind := ih hothers hlater (by simpa using h)
      have hread := Reads.line hline.bare hname hnew hline.written hbehind
      simpa [Line.chars] using hread

/-- A section is read as a table behind the others, with its lines in their order. -/
theorem Reads.section {lines : List Line} (hlines : ∀ line ∈ lines, line.Sound)
    (hkeys : (lines.map Line.key).Nodup) (hname : IsBare name) (hnew : name ∉ Keyed.keys root)
    (h : Reads [name] (root ++ [(name, .table .header
      (lines.map fun line => (line.key, line.value)))]) rest out) :
    Reads current root ('[' :: (name.toList ++ ']' :: '\n' :: (lines.flatMap Line.chars ++ rest)))
      out := by
  apply Reads.header hname hnew
  exact Reads.lines hlines hnew (by simpa [Keyed.keys] using hkeys) (by simpa using h)

end Steps

/-- A text without a byte order mark is read as its lines are. -/
theorem ofText_of_reads {s : String} {out : List (String × Toml)}
    (hmark : s.toList.head? ≠ some '\ufeff') (h : Reads [] [] s.toList out) :
    ofText s = .ok out := by
  rw [ofText]
  split
  · rename_i heq
    exact absurd (by rw [heq, List.head?_cons]) hmark
  · rw [h _ (Nat.lt_succ_self _)]
    rfl

/-! ## Values -/

/-- Whatever its form, a string begins with a quote. -/
theorem exists_quote_stringText (s : String) : ∃ quote rest,
    (stringText s).toList = quote :: rest ∧ (quote = '"' ∨ quote = '\x27') := by
  have hdouble : ∀ body, ∃ quote rest,
      (enclosed "\"" body).toList = quote :: rest ∧ (quote = '"' ∨ quote = '\x27') := by
    intro body
    rw [toList_enclosed_line (by decide)]
    exact ⟨_, _, rfl, Or.inl rfl⟩
  have htriple : ∀ body, ∃ quote rest,
      (enclosed "\"\"\"" body).toList = quote :: rest ∧ (quote = '"' ∨ quote = '\x27') := by
    intro body
    rw [toList_enclosed_lines (by decide)]
    exact ⟨_, _, rfl, Or.inl rfl⟩
  rw [stringText]
  split
  · exact hdouble _
  split
  · rw [toList_enclosed_line (by decide)]
    exact ⟨_, _, rfl, Or.inr rfl⟩
  split
  · exact htriple _
  split
  · rw [toList_enclosed_lines (by decide)]
    exact ⟨_, _, rfl, Or.inr rfl⟩
  split
  · exact htriple _
  · exact hdouble _

theorem writtenAs_stringText (s : String) : WrittenAs (stringText s) (.string s) := by
  intro fuel rest
  have hread : anyString? ((stringText s).toList ++ '\n' :: rest) = some (s, '\n' :: rest) := by
    refine anyString?_stringText s ?_ ?_
    · exact fun heq => absurd (Option.some.inj heq) (by decide)
    · exact fun heq => absurd (Option.some.inj heq) (by decide)
  obtain ⟨quote, text, htext, hquote⟩ := exists_quote_stringText s
  have hskip : skipBlank (' ' :: ((stringText s).toList ++ '\n' :: rest)) =
      (stringText s).toList ++ '\n' :: rest := by
    rw [htext]
    rcases hquote with rfl | rfl
    · rfl
    · rfl
  rw [hskip]
  rw [htext, List.cons_append] at hread ⊢
  rw [value?]
  simp only [hquote, if_true, hread, Option.map_some]

theorem writtenAs_true : WrittenAs "true" (.boolean true) := by
  intro fuel rest
  rfl

theorem writtenAs_false : WrittenAs "false" (.boolean false) := by
  intro fuel rest
  rfl

end SchemaCatalog.Toml
