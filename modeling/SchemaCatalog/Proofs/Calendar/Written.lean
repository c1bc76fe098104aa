import Mathlib.Data.List.TakeWhile
import SchemaCatalog.Calendar.Date
import SchemaCatalog.Calendar.Time

/-!
# Dates and times read back

The text of a date is read as that date (`Date.ofText?_toText`), and the text of a time as
that time (`Time.ofText?_toText`). Neither has blank characters, so that cutting those off at
the ends leaves it as it is (`Date.trim_toText`, `Time.trim_toText`).

Both rest on what is known of a number that is written with zeros in front: it has nothing
but digits, its value is the number, and two digits are enough below a hundred.
-/

set_option autoImplicit false

namespace SchemaCatalog

/-! ## Texts without blank characters -/

namespace Text

theorem dropBlank_of_forall {cs : List Char} (h : ∀ c ∈ cs, isBlankChar c = false) :
    dropBlank cs = cs := by
  cases cs with
  | nil => rfl
  | cons c rest => exact dropBlank_cons_of_not_isBlankChar rest (h c List.mem_cons_self)

/-- A text that has no blank character has none at its ends. -/
theorem trim_of_forall {s : String} (h : ∀ c ∈ s.toList, isBlankChar c = false) : trim s = s := by
  have hreverse : ∀ c ∈ s.toList.reverse, isBlankChar c = false :=
    fun c hc => h c (List.mem_reverse.1 hc)
  rw [trim, dropBlank_of_forall h, dropBlank_of_forall hreverse, List.reverse_reverse,
    String.ofList_toList]

theorem isBlankChar_of_isDigit {c : Char} (h : c.isDigit = true) : isBlankChar c = false := by
  have hrange : 48 ≤ c.toNat ∧ c.toNat ≤ 57 := by
    simpa [Char.isDigit, UInt32.le_iff_toNat_le] using h
  simp only [isBlankChar, blankRanges, List.any_cons, List.any_nil, Bool.or_eq_false_iff,
    Bool.and_eq_false_iff, decide_eq_false_iff_not, and_true]
  omega

end Text

/-! ## Padded numbers -/

namespace Calendar

theorem isDigit_of_mem_padded {width n : Nat} {c : Char} (h : c ∈ padded width n) :
    c.isDigit = true := by
  rcases List.mem_append.1 h with hzero | hdigit
  · rw [List.eq_of_mem_replicate hzero]
    rfl
  · exact Nat.isDigit_of_mem_toDigits (by decide) (by decide) hdigit

theorem isBlankChar_of_mem_padded {width n : Nat} {c : Char} (h : c ∈ padded width n) :
    Text.isBlankChar c = false :=
  Text.isBlankChar_of_isDigit (isDigit_of_mem_padded h)

theorem length_padded {width n : Nat} (hwidth : 0 < width) (h : n < Nat.pow 10 width) :
    (padded width n).length = width := by
  have hlength : (Nat.toDigits 10 n).length ≤ width :=
    (Nat.length_toDigits_le_iff (by decide) hwidth).2 h
  rw [padded, List.length_append, List.length_replicate]
  omega

theorem padded_ne_nil (width n : Nat) : padded width n ≠ [] :=
  List.append_ne_nil_of_right_ne_nil _ Nat.toDigits_ne_nil

/-- Zeros in front do not change the value. -/
theorem digitsValue_padded (width n : Nat) : Number.digitsValue (padded width n) = n := by
  have hvalue : Number.digitsValue (padded width n) = Nat.ofDigitChars 10 (padded width n) 0 := rfl
  rw [hvalue, padded, Nat.ofDigitChars_append, Nat.ofDigitChars_replicate_zero, Nat.mul_zero,
    Nat.ofDigitChars_toDigits (by decide) (by decide)]

/-- Digits are read as far as the limit goes, or up to a character that is none. -/
theorem digits?_append {limit : Nat} {ds rest : List Char} (hds : ∀ c ∈ ds, c.isDigit = true)
    (hne : ds ≠ []) (hlength : ds.length ≤ limit)
    (hstop : (rest.take (limit - ds.length)).takeWhile Char.isDigit = []) :
    digits? limit (ds ++ rest) = some (Number.digitsValue ds, rest) := by
  have hfront : ((ds ++ rest).take limit).takeWhile Char.isDigit = ds := by
    rw [List.take_append, List.take_of_length_le hlength, List.takeWhile_append_of_pos hds, hstop,
      List.append_nil]
  have hsome : ds.isEmpty = false := by simpa using hne
  simp [digits?, hfront, hsome]

/-- A padded number that is as wide as the limit is read back, whatever follows. -/
theorem digits?_padded {width n : Nat} (hwidth : 0 < width) (h : n < Nat.pow 10 width)
    (rest : List Char) : digits? width (padded width n ++ rest) = some (n, rest) := by
  have hlength := length_padded hwidth h
  rw [digits?_append (fun _ => isDigit_of_mem_padded) (padded_ne_nil width n) hlength.le
    (by simp [hlength]), digitsValue_padded]

theorem dropBlank_padded (width n : Nat) (rest : List Char) :
    Text.dropBlank (padded width n ++ rest) = padded width n ++ rest := by
  cases hpadded : padded width n with
  | nil => exact absurd hpadded (padded_ne_nil width n)
  | cons c ds =>
      have hdigit : c.isDigit = true := isDigit_of_mem_padded (hpadded ▸ List.mem_cons_self)
      exact Text.dropBlank_cons_of_not_isBlankChar _ (Text.isBlankChar_of_isDigit hdigit)

theorem number?_padded {width n : Nat} (hwidth : 0 < width) (h : n < Nat.pow 10 width)
    (rest : List Char) : number? width (padded width n ++ rest) = some (n, rest) := by
  rw [number?, dropBlank_padded, digits?_padded hwidth h]

@[simp] theorem expect?_self (c : Char) (rest : List Char) : expect? c (c :: rest) = some rest := by
  simp [expect?]

end Calendar

/-! ## Dates -/

namespace Date

open Calendar

theorem ofParts?_self (d : Date) : ofParts? d.year d.month d.day = some d := by
  simp [ofParts?, d.valid]

theorem year?_minus (cs : List Char) :
    year? ('-' :: cs) = (digits? cs.length cs).map fun p => (-(p.1 : Int), p.2) := by
  have hsign : Text.dropBlank ('-' :: cs) = '-' :: cs :=
    Text.dropBlank_cons_of_not_isBlankChar cs (by decide)
  simp only [year?, hsign]

theorem year?_plus (cs : List Char) :
    year? ('+' :: cs) = (digits? cs.length cs).map fun p => ((p.1 : Int), p.2) := by
  have hsign : Text.dropBlank ('+' :: cs) = '+' :: cs :=
    Text.dropBlank_cons_of_not_isBlankChar cs (by decide)
  simp only [year?, hsign]

/-- A year without a sign starts with a digit. -/
theorem year?_padded (width n : Nat) (rest : List Char) :
    year? (padded width n ++ rest) =
      (digits? 4 (padded width n ++ rest)).map fun p => ((p.1 : Int), p.2) := by
  rw [year?, dropBlank_padded]
  cases hpadded : padded width n with
  | nil => exact absurd hpadded (padded_ne_nil width n)
  | cons c ds =>
      have hdigit : c.isDigit = true := isDigit_of_mem_padded (hpadded ▸ List.mem_cons_self)
      split
      · rename_i cs heq
        rw [(List.cons.inj heq).1] at hdigit
        exact absurd hdigit (by decide)
      · rename_i cs heq
        rw [(List.cons.inj heq).1] at hdigit
        exact absurd hdigit (by decide)
      · rfl

/-- A year is read back up to the hyphen behind it. -/
theorem year?_yearText (year : Int) (rest : List Char) :
    year? (yearText year ++ '-' :: rest) = some (year, '-' :: rest) := by
  -- behind a sign the limit is the length of the text, so that the hyphen ends the digits
  have hsigned : digits? (padded 4 year.natAbs ++ '-' :: rest).length
      (padded 4 year.natAbs ++ '-' :: rest) = some (year.natAbs, '-' :: rest) := by
    rw [digits?_append (fun _ => isDigit_of_mem_padded) (padded_ne_nil _ _), digitsValue_padded]
    · rw [List.length_append]
      omega
    · simp
  rw [yearText]
  split
  · rename_i hnegative
    have hyear : -(year.natAbs : Int) = year := by omega
    rw [List.cons_append, year?_minus, hsigned, Option.map_some, hyear]
  · split
    · rename_i hlarge
      have hyear : (year.natAbs : Int) = year := by omega
      rw [List.cons_append, year?_plus, hsigned, Option.map_some, hyear]
    · rename_i hnonnegative hsmall
      have hyear : (year.natAbs : Int) = year := by omega
      have hfour : year.natAbs < 10000 := by omega
      rw [year?_padded, digits?_padded (by decide) hfour, Option.map_some, hyear]

theorem daysInMonth_le (year : Int) (month : Nat) : daysInMonth year month ≤ 31 := by
  rw [daysInMonth]
  split_ifs <;> omega

theorem month_le_of_daysInMonth_pos {year : Int} {month : Nat} (h : 0 < daysInMonth year month) :
    month ≤ 12 := by
  rw [daysInMonth] at h
  split_ifs at h <;> omega

/-- A month and a day have two digits at most. -/
theorem two_digits (d : Date) : d.month < Nat.pow 10 2 ∧ d.day < Nat.pow 10 2 := by
  have hvalid : 1 ≤ d.day ∧ d.day ≤ daysInMonth d.year d.month := by
    have h := d.valid
    simp only [isDate, Bool.and_eq_true, decide_eq_true_eq] at h
    exact ⟨h.1.2, h.2⟩
  have hmonth : d.month ≤ 12 := month_le_of_daysInMonth_pos (hvalid.1.trans hvalid.2)
  have hday : d.day ≤ 31 := hvalid.2.trans (daysInMonth_le d.year d.month)
  exact ⟨Nat.lt_of_le_of_lt hmonth (by decide), Nat.lt_of_le_of_lt hday (by decide)⟩

theorem plain?_toText (d : Date) : plain? d.toText.toList = some d := by
  obtain ⟨hmonth, hday⟩ := two_digits d
  have hyear := year?_yearText d.year (padded 2 d.month ++ '-' :: padded 2 d.day)
  have hmiddle : ∀ rest, number? 2 (padded 2 d.month ++ rest) = some (d.month, rest) :=
    number?_padded (by decide) hmonth
  have hend : number? 2 (padded 2 d.day) = some (d.day, []) := by
    simpa using number?_padded (by decide) hday []
  rw [toText, String.toList_ofList, List.append_assoc, List.cons_append, plain?, hyear]
  simp [hmiddle, hend, ofParts?_self]

/-- A date is what its text is read as. -/
theorem ofText?_toText (d : Date) : ofText? d.toText = some d := by
  rw [ofText?, plain?_toText]
  rfl

theorem isBlankChar_of_mem_yearText {year : Int} {c : Char} (h : c ∈ yearText year) :
    Text.isBlankChar c = false := by
  have hpadded : c ∈ padded 4 year.natAbs → Text.isBlankChar c = false := isBlankChar_of_mem_padded
  rw [yearText] at h
  split at h
  · rcases List.mem_cons.1 h with rfl | hdigit
    · decide
    · exact hpadded hdigit
  · split at h
    · rcases List.mem_cons.1 h with rfl | hdigit
      · decide
      · exact hpadded hdigit
    · exact hpadded h

theorem trim_toText (d : Date) : Text.trim d.toText = d.toText := by
  apply Text.trim_of_forall
  intro c hc
  rw [toText, String.toList_ofList] at hc
  simp only [List.mem_append, List.mem_cons] at hc
  rcases hc with (hyear | rfl | hmonth) | rfl | hday
  · exact isBlankChar_of_mem_yearText hyear
  · decide
  · exact isBlankChar_of_mem_padded hmonth
  · decide
  · exact isBlankChar_of_mem_padded hday

end Date

/-! ## Times -/

namespace Time

open Calendar

theorem ofParts?_self (t : Time) : ofParts? t.hour t.minute t.second t.nano = some t := by
  simp [ofParts?, t.valid]

/-- A padded number behind a point stands for that many parts of its power of ten. -/
theorem fraction?_padded {width n : Nat} (hwidth : 0 < width) (hnine : width ≤ 9)
    (h : n < Nat.pow 10 width) : fraction? ('.' :: padded width n) = some (n * Nat.pow 10 (9 - width)) := by
  have hlength := length_padded hwidth h
  have hsome : (padded width n).isEmpty = false := by simpa using padded_ne_nil width n
  have hdigits : (padded width n).all Char.isDigit = true :=
    List.all_eq_true.2 fun c hc => isDigit_of_mem_padded hc
  have htake : (padded width n).take 9 = padded width n :=
    List.take_of_length_le (hlength.trans_le hnine)
  simp [fraction?, hsome, hdigits, nanoseconds, htake, hlength, digitsValue_padded]

/-- Only zeros are left out at the end of a fraction. -/
theorem fraction?_fractionText {nano : Nat} (h : nano < Nat.pow 10 9) :
    fraction? (fractionText nano) = some nano := by
  have hcut : ∀ width, 0 < width → width ≤ 9 → nano % Nat.pow 10 (9 - width) = 0 →
      fraction? ('.' :: padded width (nano / Nat.pow 10 (9 - width))) = some nano := by
    intro width hwidth hnine hzeros
    have hpow : Nat.pow 10 9 = Nat.pow 10 (9 - width) * Nat.pow 10 width := by
      have hadd := Nat.pow_add 10 (9 - width) width
      rw [Nat.sub_add_cancel hnine] at hadd
      exact hadd
    have hfits : nano / Nat.pow 10 (9 - width) < Nat.pow 10 width := by
      rw [hpow] at h
      exact Nat.div_lt_of_lt_mul h
    rw [fraction?_padded hwidth hnine hfits, Nat.div_mul_cancel (Nat.dvd_of_mod_eq_zero hzeros)]
  rw [fractionText]
  split
  · rename_i hzero
    rw [hzero]
    rfl
  · split
    · rename_i hmilli
      exact hcut 3 (by decide) (by decide) hmilli
    · split
      · rename_i hmicro
        exact hcut 6 (by decide) (by decide) hmicro
      · simpa using hcut 9 (by decide) (by decide) (by simp [Nat.mod_one])

/-- A time is what its text is read as. -/
theorem ofText?_toText (t : Time) : ofText? t.toText = some t := by
  have hvalid : ((t.hour ≤ 23 ∧ t.minute ≤ 59) ∧ t.second ≤ 60) ∧ t.nano < Nat.pow 10 9 := by
    have h := t.valid
    simp only [isTime, Bool.and_eq_true, decide_eq_true_eq] at h
    exact h
  obtain ⟨⟨⟨hhour, hminute⟩, hsecond⟩, hnano⟩ := hvalid
  have htwo : ∀ (n : Nat) (rest : List Char), n ≤ 60 →
      number? 2 (padded 2 n ++ rest) = some (n, rest) :=
    fun n rest hn => number?_padded (by decide) (Nat.lt_of_le_of_lt hn (by decide)) rest
  rw [toText, ofText?, String.toList_ofList]
  simp only [List.append_assoc, List.cons_append]
  rw [htwo t.hour _ (by omega)]
  simp [htwo t.minute _ (by omega), htwo t.second _ hsecond, fraction?_fractionText hnano,
    ofParts?_self]

theorem isBlankChar_of_mem_fractionText {nano : Nat} {c : Char} (h : c ∈ fractionText nano) :
    Text.isBlankChar c = false := by
  have hpoint : ∀ width n, c ∈ '.' :: padded width n → Text.isBlankChar c = false := by
    intro width n hc
    rcases List.mem_cons.1 hc with rfl | hdigit
    · decide
    · exact isBlankChar_of_mem_padded hdigit
  rw [fractionText] at h
  split at h
  · cases h
  · split at h
    · exact hpoint _ _ h
    · split at h
      · exact hpoint _ _ h
      · exact hpoint _ _ h

theorem trim_toText (t : Time) : Text.trim t.toText = t.toText := by
  apply Text.trim_of_forall
  intro c hc
  rw [toText, String.toList_ofList] at hc
  simp only [List.mem_append, List.mem_cons] at hc
  rcases hc with ((hhour | rfl | hminute) | rfl | hsecond) | hnano
  · exact isBlankChar_of_mem_padded hhour
  · decide
  · exact isBlankChar_of_mem_padded hminute
  · decide
  · exact isBlankChar_of_mem_padded hsecond
  · exact isBlankChar_of_mem_fractionText hnano

end Time

end SchemaCatalog
