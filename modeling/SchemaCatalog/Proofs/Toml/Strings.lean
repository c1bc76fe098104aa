import SchemaCatalog.Toml.Parser
import SchemaCatalog.Toml.Writer

/-!
# Strings in TOML documents

A string is written in the first of six forms that can hold it, and whichever it is, reading
undoes writing (`anyString?_stringText`). The six forms are of four kinds, and each kind has a
lemma of its own: between double quotes on one line or over several (`basicString_escapedLine`,
`multilineString_escapedLines`), where a character may be escaped, and between single quotes on
one line or over several (`literalString_append`, `multilineString_append`), where it stands as
it is.

Over several lines the reader takes quotes in a row at once, while the writer puts down one
character after the other. The lemmas for these forms therefore speak of quotes that are written
and not yet read.
-/

set_option autoImplicit false

namespace SchemaCatalog.Toml

/-! ## Single characters -/

theorem isPlainChar_of_not_isControl {c : Char} (h : isControl c = false) (hline : c ≠ '\n') :
    isPlainChar c = true := by
  simp only [isControl, Bool.or_eq_false_iff, Bool.and_eq_false_iff, decide_eq_false_iff_not,
    bne_eq_false_iff_eq, beq_eq_false_iff_ne] at h
  obtain ⟨hlow, hdelete⟩ := h
  simp only [isPlainChar, Bool.or_eq_true, Bool.and_eq_true, beq_iff_eq, decide_eq_true_eq,
    bne_iff_ne]
  rcases hlow with (hlow | htab) | hnewline
  · exact Or.inr ⟨by omega, hdelete⟩
  · exact Or.inl htab
  · exact absurd hnewline hline

/-- A plain character ends no line. -/
theorem lineEnd?_of_isPlainChar {c : Char} (h : isPlainChar c = true) (rest : List Char) :
    lineEnd? (c :: rest) = none := by
  have hline : c ≠ '\n' := by
    rintro rfl
    exact absurd h (by decide)
  have hreturn : c ≠ '\x0d' := by
    rintro rfl
    exact absurd h (by decide)
  rw [lineEnd?]
  · exact fun cs heq => hline (List.cons.inj heq).1
  · exact fun cs heq => hreturn (List.cons.inj heq).1

theorem hexDigits_small : ∀ n < 128,
    isHexDigit (Nat.digitChar (n / 16)).toUpper = true ∧
      isHexDigit (Nat.digitChar (n % 16)).toUpper = true ∧
      16 * digitValue (Nat.digitChar (n / 16)).toUpper +
        digitValue (Nat.digitChar (n % 16)).toUpper = n := by
  decide

/-- The number of a control character has two digits behind two zeros. -/
theorem numbered?_control {c : Char} (h : isControl c = true) (rest : List Char) :
    numbered? 4 ('0' :: '0' :: (Nat.digitChar (c.toNat / 16)).toUpper ::
      (Nat.digitChar (c.toNat % 16)).toUpper :: rest) = some (c, rest) := by
  have hsmall : c.toNat < 128 := by
    simp only [isControl, Bool.or_eq_true, Bool.and_eq_true, decide_eq_true_eq, beq_iff_eq] at h
    omega
  obtain ⟨hhigh, hlow, hvalue⟩ := hexDigits_small c.toNat hsmall
  have hzero : isHexDigit '0' = true := by decide
  have hnone : digitValue '0' = 0 := by decide
  have hrange : c.toNat < 0xD800 := by omega
  simp [numbered?, hhigh, hlow, hvalue, hzero, hnone, hrange]

/-! ## What stands for a character -/

/-- A backslash in front of a character other than white space does not continue a line. -/
theorem continuation?_eq_none {c : Char} (h : isPlainChar c = true) (hblank : isBlankChar c = false)
    (rest : List Char) : continuation? (c :: rest) = none := by
  have hskip : skipBlank (c :: rest) = c :: rest :=
    List.dropWhile_cons_of_neg (by simp [hblank])
  rw [continuation?, hskip, lineEnd?_of_isPlainChar h, Option.map_none]

/-- A text that stands for a character between double quotes: the character itself, if it is
plain, or an escape. -/
inductive Shows (c : Char) : List Char → Prop
  | plain (hslash : c ≠ '\\') (hplain : isPlainChar c = true) : Shows c [c]
  | escape {mark : Char} {digits : List Char} (hplain : isPlainChar mark = true)
      (hblank : isBlankChar mark = false)
      (hread : ∀ rest, escape? (mark :: digits ++ rest) = some (c, rest)) :
      Shows c ('\\' :: mark :: digits)

theorem Shows.length_pos {c : Char} {text : List Char} (h : Shows c text) : 0 < text.length := by
  cases h with
  | plain => exact Nat.one_pos
  | escape => exact Nat.succ_pos _

/-- A character other than a quote is not shown by a quote. -/
theorem Shows.ne_quote {c : Char} {text : List Char} (h : Shows c text) (hquote : c ≠ '"') :
    text ≠ ['"'] := by
  cases h with
  | plain => exact fun heq => hquote (List.cons.inj heq).1
  | escape => exact fun heq => absurd (List.cons.inj heq).1 (by decide)

/-- Such a text does not begin with a quote either. -/
theorem Shows.head?_ne {c : Char} {text : List Char} (h : Shows c text) (hquote : text ≠ ['"'])
    (rest : List Char) : (text ++ rest).head? ≠ some '"' := by
  cases h with
  | plain => exact fun heq => hquote (by rw [Option.some.inj heq])
  | escape => exact fun heq => absurd (Option.some.inj heq) (by decide)

theorem shows_quote : Shows '"' ['\\', '"'] :=
  .escape (by decide) (by decide) fun _ => rfl

theorem shows_newline : Shows '\n' ['\\', 'n'] :=
  .escape (by decide) (by decide) fun _ => rfl

/-- Line ends apart, every character has a text that stands for it. -/
theorem shows_escapedChar {c : Char} (hline : c ≠ '\n') : Shows c (escapedChar c) := by
  rw [escapedChar]
  split
  · rename_i hc
    subst hc
    exact .escape (by decide) (by decide) fun _ => rfl
  split
  · rename_i hc
    subst hc
    exact .escape (by decide) (by decide) fun _ => rfl
  split
  · rename_i hc
    subst hc
    exact .escape (by decide) (by decide) fun _ => rfl
  split
  · rename_i hc
    subst hc
    exact .escape (by decide) (by decide) fun _ => rfl
  split
  · rename_i hc
    subst hc
    exact .escape (by decide) (by decide) fun _ => rfl
  rename_i hslash
  split
  · rename_i hcontrol
    exact @Shows.escape c 'u' _ (by decide) (by decide) (numbered?_control hcontrol)
  · rename_i hcontrol
    exact .plain hslash (isPlainChar_of_not_isControl (by simpa using hcontrol) hline)

section Reading

variable {c : Char} {text : List Char}

/-- On one line such a text is read as its character, a quote that stands for itself apart. -/
theorem basicString_shows (h : Shows c text) (hquote : text ≠ ['"']) (fuel : Nat)
    (read rest : List Char) :
    basicString (fuel + 1) read (text ++ rest) = basicString fuel (c :: read) rest := by
  cases h with
  | plain hslash hplain =>
      have hc : c ≠ '"' := fun heq => hquote (by rw [heq])
      rw [List.singleton_append, basicString, if_neg hc, if_neg hslash, if_pos hplain]
  | escape hplain hblank hread =>
      have hmark : ('\\' : Char) ≠ '"' := by decide
      rw [List.cons_append, basicString, if_neg hmark, if_pos rfl, hread]

/-- Over several lines such a text is read as its character as well. -/
theorem multilineString_shows (h : Shows c text) (hquote : text ≠ ['"']) (fuel : Nat)
    (read rest : List Char) :
    multilineString '"' (fuel + 1) read (text ++ rest) =
      multilineString '"' fuel (c :: read) rest := by
  cases h with
  | plain hslash hplain =>
      have hc : c ≠ '"' := fun heq => hquote (by rw [heq])
      rw [List.singleton_append, multilineString, if_neg hc, lineEnd?_of_isPlainChar hplain]
      simp [hslash, hplain]
  | escape hplain hblank hread =>
      have hmark : ('\\' : Char) ≠ '"' := by decide
      have hline := continuation?_eq_none hplain hblank
      rw [List.cons_append, multilineString, if_neg hmark,
        lineEnd?_of_isPlainChar (by decide), hread]
      simp [hline]

end Reading

/-! ## Double quotes -/

/-- On one line every character is shown by something that is not a quote. -/
theorem exists_shows_escapedLine (c : Char) (cs : List Char) :
    ∃ text, Shows c text ∧ text ≠ ['"'] ∧ escapedLine (c :: cs) = text ++ escapedLine cs := by
  rw [escapedLine, List.flatMap_cons, ← escapedLine]
  by_cases hquote : c = '"'
  · subst hquote
    exact ⟨_, shows_quote, by decide, rfl⟩
  by_cases hline : c = '\n'
  · subst hline
    exact ⟨_, shows_newline, by decide, rfl⟩
  rw [if_neg hquote, if_neg hline]
  exact ⟨_, shows_escapedChar hline, (shows_escapedChar hline).ne_quote hquote, rfl⟩

/-- Between double quotes on one line a text is read back, whatever characters it has. -/
theorem basicString_escapedLine (cs read rest : List Char) {fuel : Nat}
    (hfuel : (escapedLine cs).length < fuel) :
    basicString fuel read (escapedLine cs ++ '"' :: rest) =
      some (String.ofList (read.reverse ++ cs), rest) := by
  induction cs generalizing fuel read with
  | nil =>
      obtain ⟨fuel, rfl⟩ := Nat.exists_eq_succ_of_ne_zero (Nat.ne_of_gt hfuel)
      simp [escapedLine, basicString]
  | cons c cs ih =>
      obtain ⟨text, htext, hquote, hline⟩ := exists_shows_escapedLine c cs
      rw [hline] at hfuel ⊢
      have hpos : 0 < text.length := htext.length_pos
      obtain ⟨fuel, rfl⟩ : ∃ f, fuel = f + 1 := ⟨fuel - 1, by omega⟩
      rw [List.length_append] at hfuel
      rw [List.append_assoc, basicString_shows htext hquote, ih (c :: read) (by omega),
        List.reverse_cons, List.append_assoc, List.singleton_append]

/-! ## Several lines -/

/-- A string over several lines is read from a text, if there are steps for each character. -/
def ReadsLines (quote : Char) (read cs : List Char) (out : String × List Char) : Prop :=
  ∀ fuel, cs.length < fuel → multilineString quote fuel read cs = some out

/-- Quotes in a row are counted up to the first other character. -/
theorem closing?_replicate {quote : Char} {rest : List Char} (hrest : rest.head? ≠ some quote)
    (n : Nat) : closing? quote (List.replicate n quote ++ rest) =
      if n < 3 then some (n, false) else if n ≤ 5 then some (n - 3, true) else none := by
  have hquotes : ∀ a ∈ List.replicate n quote, (a == quote) = true :=
    fun a ha => beq_iff_eq.2 (List.eq_of_mem_replicate ha)
  have hnone : rest.takeWhile (· == quote) = [] := by
    cases rest with
    | nil => rfl
    | cons c cs =>
        have hc : c ≠ quote := fun heq => hrest (by rw [heq, List.head?_cons])
        exact List.takeWhile_cons_of_neg (by simpa using hc)
  rw [closing?, List.takeWhile_append_of_pos hquotes, hnone, List.append_nil, List.length_replicate]

namespace ReadsLines

variable {quote : Char} {read rest : List Char} {out : String × List Char}

/-- Fewer than three quotes in a row belong to the string. -/
theorem pending {n : Nat} (hn : n < 3) (hrest : rest.head? ≠ some quote)
    (h : ReadsLines quote (List.replicate n quote ++ read) rest out) :
    ReadsLines quote read (List.replicate n quote ++ rest) out := by
  cases n with
  | zero => exact h
  | succ n =>
      intro fuel hfuel
      rw [List.length_append, List.length_replicate] at hfuel
      obtain ⟨fuel, rfl⟩ : ∃ f, fuel = f + 1 := ⟨fuel - 1, by omega⟩
      have hclosing := closing?_replicate hrest (n + 1)
      rw [if_pos hn, List.replicate_succ, List.cons_append] at hclosing
      have hdrop : (quote :: (List.replicate n quote ++ rest)).drop (n + 1) = rest := by
        rw [List.drop_succ_cons, List.drop_append, List.length_replicate]
        simp
      rw [List.replicate_succ, List.cons_append, multilineString, if_pos rfl, hclosing]
      simp only [hdrop]
      exact h fuel (by omega)

/-- Of up to five quotes in a row the last three end the string. -/
theorem close {n : Nat} (hn : n ≤ 2) (hrest : rest.head? ≠ some quote) :
    ReadsLines quote read (List.replicate n quote ++ quote :: quote :: quote :: rest)
      (String.ofList (read.reverse ++ List.replicate n quote), rest) := by
  intro fuel hfuel
  obtain ⟨fuel, rfl⟩ : ∃ f, fuel = f + 1 := ⟨fuel - 1, by omega⟩
  have hsplit : List.replicate n quote ++ quote :: quote :: quote :: rest =
      List.replicate (n + 3) quote ++ rest := by
    rw [← List.replicate_append_replicate, List.append_assoc]
    rfl
  have hclosing := closing?_replicate hrest (n + 3)
  rw [if_neg (by omega), if_pos (by omega), Nat.add_sub_cancel, List.replicate_succ,
    List.cons_append] at hclosing
  have hdrop : (quote :: (List.replicate (n + 2) quote ++ rest)).drop (n + 3) = rest := by
    rw [List.drop_succ_cons, List.drop_append, List.length_replicate]
    simp
  rw [hsplit, List.replicate_succ, List.cons_append, multilineString, if_pos rfl, hclosing]
  simp only [hdrop, List.reverse_append, List.reverse_replicate]

theorem newline (hquote : quote ≠ '\n') (h : ReadsLines quote ('\n' :: read) rest out) :
    ReadsLines quote read ('\n' :: rest) out := by
  intro fuel hfuel
  rw [List.length_cons] at hfuel
  obtain ⟨fuel, rfl⟩ : ∃ f, fuel = f + 1 := ⟨fuel - 1, by omega⟩
  rw [multilineString, if_neg (Ne.symm hquote), lineEnd?]
  exact h fuel (by omega)

theorem shows {c : Char} {text : List Char} (htext : Shows c text) (hquote : text ≠ ['"'])
    (h : ReadsLines '"' (c :: read) rest out) : ReadsLines '"' read (text ++ rest) out := by
  intro fuel hfuel
  have hpos := htext.length_pos
  rw [List.length_append] at hfuel
  obtain ⟨fuel, rfl⟩ : ∃ f, fuel = f + 1 := ⟨fuel - 1, by omega⟩
  rw [multilineString_shows htext hquote]
  exact h fuel (by omega)

/-- Between single quotes a plain character stands for itself. -/
theorem plain {c : Char} (hplain : isPlainChar c = true) (hquote : c ≠ '\x27')
    (h : ReadsLines '\x27' (c :: read) rest out) : ReadsLines '\x27' read (c :: rest) out := by
  intro fuel hfuel
  rw [List.length_cons] at hfuel
  obtain ⟨fuel, rfl⟩ : ∃ f, fuel = f + 1 := ⟨fuel - 1, by omega⟩
  -- only between double quotes a backslash begins an escape
  have hraw : ¬ (c = '\\' ∧ '\x27' = '"') := fun hslash => absurd hslash.2 (by decide)
  rw [multilineString, if_neg hquote, lineEnd?_of_isPlainChar hplain]
  simp only [hraw, hplain, if_true, if_false]
  exact h fuel (by omega)

end ReadsLines

/-- Over several lines a text is read back from between double quotes. Some quotes may be written
already that are not read yet; the writer escapes the third in a row, so there are two at most. -/
theorem readsLines_escapedLines (cs : List Char) {run : Nat} (hrun : run ≤ 2)
    (read : List Char) {rest : List Char} (hrest : rest.head? ≠ some '"') :
    ReadsLines '"' read
      (List.replicate run '"' ++ (escapedLines run cs ++ '"' :: '"' :: '"' :: rest))
      (String.ofList (read.reverse ++ List.replicate run '"' ++ cs), rest) := by
  induction cs generalizing run read with
  | nil =>
      rw [escapedLines, List.append_nil]
      exact ReadsLines.close hrun hrest
  | cons c cs ih =>
      -- what is written already is read now, and then the text of the character
      have hread : ∀ {text : List Char}, Shows c text → text ≠ ['"'] →
          ReadsLines '"' read (List.replicate run '"' ++
            (text ++ (escapedLines 0 cs ++ '"' :: '"' :: '"' :: rest)))
            (String.ofList (read.reverse ++ List.replicate run '"' ++ c :: cs), rest) := by
        intro text htext hquote
        have hih := ih (Nat.zero_le 2) (c :: (List.replicate run '"' ++ read))
        refine ReadsLines.pending (by omega) (htext.head?_ne hquote _)
          (ReadsLines.shows htext hquote ?_)
        simpa using hih
      by_cases hquote : c = '"'
      · subst hquote
        by_cases hthird : run = 2
        · rw [escapedLines, if_pos rfl, if_pos hthird]
          exact hread shows_quote (by decide)
        · have hmore : run + 1 ≤ 2 := by omega
          have hih := ih hmore read
          rw [escapedLines, if_pos rfl, if_neg hthird]
          simpa [List.replicate_succ'] using hih
      by_cases hline : c = '\n'
      · subst hline
        have hih := ih (Nat.zero_le 2) ('\n' :: (List.replicate run '"' ++ read))
        rw [escapedLines, if_neg hquote, if_pos rfl]
        refine ReadsLines.pending (by omega) ?_ (ReadsLines.newline (by decide) ?_)
        · exact fun heq => absurd (Option.some.inj heq) (by decide)
        · simpa using hih
      · have hshows := shows_escapedChar hline
        rw [escapedLines, if_neg hquote, if_neg hline, List.append_assoc]
        exact hread hshows (hshows.ne_quote hquote)

/-- Over several lines a text is read back from between single quotes, if it has no three quotes
in a row. Again some quotes may be written already that are not read yet. -/
theorem readsLines_append (cs : List Char) {run : Nat} (hrun : longestRun '\x27' run cs < 3)
    (hplain : ∀ c ∈ cs, c ≠ '\n' → isPlainChar c = true) (read : List Char) {rest : List Char}
    (hrest : rest.head? ≠ some '\x27') :
    ReadsLines '\x27' read
      (List.replicate run '\x27' ++ (cs ++ '\x27' :: '\x27' :: '\x27' :: rest))
      (String.ofList (read.reverse ++ List.replicate run '\x27' ++ cs), rest) := by
  induction cs generalizing run read with
  | nil =>
      rw [List.append_nil]
      exact ReadsLines.close (Nat.le_of_lt_succ hrun) hrest
  | cons c cs ih =>
      obtain ⟨hfirst, hothers⟩ := List.forall_mem_cons.1 hplain
      rw [longestRun] at hrun
      by_cases hquote : c = '\x27'
      · subst hquote
        rw [if_pos rfl] at hrun
        have hih := ih hrun hothers read
        simpa [List.replicate_succ'] using hih
      rw [if_neg hquote] at hrun
      have hbehind : longestRun '\x27' 0 cs < 3 := by omega
      have hih := ih hbehind hothers (c :: (List.replicate run '\x27' ++ read))
      refine ReadsLines.pending (by omega) ?_ ?_
      · rw [List.cons_append, List.head?_cons]
        exact fun heq => hquote (Option.some.inj heq)
      by_cases hline : c = '\n'
      · subst hline
        refine ReadsLines.newline (by decide) ?_
        simpa using hih
      · refine ReadsLines.plain (hfirst hline) hquote ?_
        simpa using hih

/-! ## Single quotes -/

/-- Between single quotes on one line a text without quotes and control characters is read back. -/
theorem literalString_append (cs read rest : List Char) (hplain : ∀ c ∈ cs, isPlainChar c = true)
    (hquote : '\x27' ∉ cs) :
    literalString read (cs ++ '\x27' :: rest) = some (String.ofList (read.reverse ++ cs), rest) := by
  induction cs generalizing read with
  | nil =>
      rw [List.nil_append, literalString, if_pos rfl, List.append_nil]
  | cons c cs ih =>
      obtain ⟨hfirst, hothers⟩ := List.forall_mem_cons.1 hplain
      rw [List.mem_cons, not_or] at hquote
      rw [List.cons_append, literalString, if_neg (Ne.symm hquote.1), if_pos hfirst,
        ih (c :: read) hothers hquote.2, List.reverse_cons, List.append_assoc,
        List.singleton_append]

/-- The longest run is at least as long as the one that is under way. -/
theorem le_longestRun (quote : Char) (cs : List Char) (run : Nat) :
    run ≤ longestRun quote run cs := by
  induction cs generalizing run with
  | nil => exact Nat.le_refl run
  | cons c cs ih =>
      rw [longestRun]
      split
      · exact Nat.le_trans (Nat.le_succ run) (ih (run + 1))
      · exact Nat.le_max_left _ _

theorem not_mem_of_longestRun_eq_zero {quote : Char} {cs : List Char}
    (h : longestRun quote 0 cs = 0) : quote ∉ cs := by
  induction cs with
  | nil => exact List.not_mem_nil
  | cons c cs ih =>
      rw [longestRun] at h
      by_cases hc : c = quote
      · have hlong := le_longestRun quote cs (0 + 1)
        rw [if_pos hc] at h
        omega
      · rw [if_neg hc, Nat.zero_max] at h
        exact List.not_mem_cons_of_ne_of_not_mem (Ne.symm hc) (ih h)

/-! ## Strings of any form -/

/-- One quote on either side is all that is put around a line. -/
theorem toList_enclosed_line {quotes : String} (h : quotes.length ≠ 3) (body : List Char) :
    (enclosed quotes body).toList = quotes.toList ++ (body ++ quotes.toList) := by
  simp [enclosed, h]

/-- Three quotes are followed by a line end where the body has several lines. -/
theorem toList_enclosed_lines {quotes : String} (h : quotes.length = 3) (body : List Char) :
    (enclosed quotes body).toList = quotes.toList ++
      ((if body.contains '\n' then ['\n'] else []) ++ (body ++ quotes.toList)) := by
  by_cases hbody : '\n' ∈ body
  · simp [enclosed, h, hbody]
  · simp [enclosed, h, hbody]

/-- A text has no line end at its front if it has none at all and does not end in half of one. -/
theorem lineEnd?_of_not_mem {quote : Char} (hline : quote ≠ '\n') (hreturn : quote ≠ '\x0d')
    {body : List Char} (hbody : '\n' ∉ body) (rest : List Char) :
    lineEnd? (body ++ quote :: rest) = none := by
  rw [lineEnd?]
  · intro cs heq
    cases body with
    | nil => exact hline (List.cons.inj heq).1
    | cons c body => exact hbody ((List.cons.inj heq).1 ▸ List.mem_cons_self)
  · intro cs heq
    match body with
    | [] => exact hreturn (List.cons.inj heq).1
    | [c] => exact hline (List.cons.inj (List.cons.inj heq).2).1
    | c :: d :: body =>
        have hd : d = '\n' := (List.cons.inj (List.cons.inj heq).2).1
        exact hbody (hd ▸ List.mem_cons_of_mem c List.mem_cons_self)

/-- The line end in front of a body with several lines is skipped, and no other one. -/
theorem skipFirstLineEnd_body {quote : Char} (hline : quote ≠ '\n') (hreturn : quote ≠ '\x0d')
    (body rest : List Char) :
    skipFirstLineEnd ((if body.contains '\n' then ['\n'] else []) ++ (body ++ quote :: rest)) =
      body ++ quote :: rest := by
  by_cases hbody : '\n' ∈ body
  · rw [if_pos (List.contains_iff_mem.2 hbody)]
    rfl
  · rw [if_neg (by simpa using hbody), List.nil_append, skipFirstLineEnd,
      lineEnd?_of_not_mem hline hreturn hbody, Option.getD_none]

section Forms

variable {cs rest : List Char}

theorem anyString?_double (hrest : rest.head? ≠ some '"') :
    anyString? ((enclosed "\"" (escapedLine cs)).toList ++ rest) =
      some (String.ofList cs, rest) := by
  have htext : (enclosed "\"" (escapedLine cs)).toList ++ rest =
      '"' :: (escapedLine cs ++ '"' :: rest) := by
    rw [toList_enclosed_line (by decide), List.append_assoc, List.append_assoc]
    rfl
  -- the first quote is not one of three
  have hone : ∀ more, escapedLine cs ++ '"' :: rest = '"' :: '"' :: more → False := by
    intro more heq
    cases cs with
    | nil =>
        have hhead : rest = '"' :: more := (List.cons.inj heq).2
        exact hrest (by rw [hhead, List.head?_cons])
    | cons c cs =>
        obtain ⟨text, htext, hquote, hline⟩ := exists_shows_escapedLine c cs
        rw [hline, List.append_assoc] at heq
        exact htext.head?_ne hquote _ (by rw [heq, List.head?_cons])
  have hread : basicString ((escapedLine cs ++ '"' :: rest).length + 1) []
      (escapedLine cs ++ '"' :: rest) = some (String.ofList cs, rest) := by
    refine basicString_escapedLine cs [] rest ?_
    rw [List.length_append]
    omega
  rw [htext, anyString?]
  · exact hread
  · exact hone

theorem anyString?_single (hplain : ∀ c ∈ cs, isPlainChar c = true) (hquote : '\x27' ∉ cs)
    (hrest : rest.head? ≠ some '\x27') :
    anyString? ((enclosed "'" cs).toList ++ rest) = some (String.ofList cs, rest) := by
  have htext : (enclosed "'" cs).toList ++ rest = '\x27' :: (cs ++ '\x27' :: rest) := by
    rw [toList_enclosed_line (by decide), List.append_assoc, List.append_assoc]
    rfl
  have hone : ∀ more, cs ++ '\x27' :: rest = '\x27' :: '\x27' :: more → False := by
    intro more heq
    cases cs with
    | nil =>
        have hhead : rest = '\x27' :: more := (List.cons.inj heq).2
        exact hrest (by rw [hhead, List.head?_cons])
    | cons c cs => exact hquote ((List.cons.inj heq).1 ▸ List.mem_cons_self)
  rw [htext, anyString?]
  · exact literalString_append cs [] rest hplain hquote
  · exact hone

/-- What is read over several lines is what comes behind the quotes and the first line end. -/
theorem ReadsLines.body {quote : Char} {body more : List Char} {out : String × List Char}
    (hline : quote ≠ '\n') (hreturn : quote ≠ '\x0d')
    (h : ReadsLines quote [] (body ++ quote :: more) out) :
    let behind := (if body.contains '\n' then ['\n'] else []) ++ (body ++ quote :: more)
    multilineString quote (behind.length + 1) [] (skipFirstLineEnd behind) = some out := by
  intro behind
  rw [skipFirstLineEnd_body hline hreturn]
  apply h
  simp only [behind, List.length_append]
  omega

theorem anyString?_tripleDouble (hrest : rest.head? ≠ some '"') :
    anyString? ((enclosed "\"\"\"" (escapedLines 0 cs)).toList ++ rest) =
      some (String.ofList cs, rest) := by
  have hread := readsLines_escapedLines cs (Nat.zero_le 2) [] hrest
  rw [toList_enclosed_lines (by decide)]
  simp only [List.append_assoc]
  exact hread.body (by decide) (by decide)

theorem anyString?_tripleSingle (hplain : ∀ c ∈ cs, c ≠ '\n' → isPlainChar c = true)
    (hrun : longestRun '\x27' 0 cs < 3) (hrest : rest.head? ≠ some '\x27') :
    anyString? ((enclosed "'''" cs).toList ++ rest) = some (String.ofList cs, rest) := by
  have hread := readsLines_append cs hrun hplain [] hrest
  rw [toList_enclosed_lines (by decide)]
  simp only [List.append_assoc]
  exact hread.body (by decide) (by decide)

end Forms

/-- Reading a string undoes writing it, in whichever form it is written, unless a quote follows. -/
theorem anyString?_stringText (s : String) {rest : List Char} (hdouble : rest.head? ≠ some '"')
    (hsingle : rest.head? ≠ some '\x27') :
    anyString? ((stringText s).toList ++ rest) = some (s, rest) := by
  have hplain : s.toList.any isControl = false →
      ∀ c ∈ s.toList, c ≠ '\n' → isPlainChar c = true := by
    intro hcontrol c hc
    rw [List.any_eq_false] at hcontrol
    exact isPlainChar_of_not_isControl (by simpa using hcontrol c hc)
  rw [stringText]
  split
  · rw [anyString?_double hdouble, String.ofList_toList]
  split
  · rename_i hform
    simp only [Bool.and_eq_true, Bool.not_eq_true', beq_iff_eq] at hform
    obtain ⟨⟨hcontrol, hquote⟩, hline⟩ := hform
    rw [anyString?_single (fun c hc => hplain hcontrol c hc ?_)
      (not_mem_of_longestRun_eq_zero hquote) hsingle, String.ofList_toList]
    rintro rfl
    rw [List.contains_eq_mem, decide_eq_false_iff_not] at hline
    exact hline hc
  split
  · rw [anyString?_tripleDouble hdouble, String.ofList_toList]
  split
  · rename_i hform
    simp only [Bool.and_eq_true, Bool.not_eq_true', decide_eq_true_eq] at hform
    rw [anyString?_tripleSingle (hplain hform.1) hform.2 hsingle, String.ofList_toList]
  split
  · rw [anyString?_tripleDouble hdouble, String.ofList_toList]
  · rw [anyString?_double hdouble, String.ofList_toList]

end SchemaCatalog.Toml
