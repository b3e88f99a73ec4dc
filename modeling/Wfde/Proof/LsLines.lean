import Wfde.Proof.LsGrammar

/-!
# The lines of LIST

What `LsLongFormat` writes, and how it is read.
-/

namespace Wfde

namespace LsLongFormat

open Cursor

/-- What a line should be read as. -/
structure Reads (format : LsLongFormat) (entry : Entry) (tm : Tm) (parsed : LsLine) : Prop where
  isDirectory : parsed.isDirectory = entry.st.isDirectory
  size : entry.st.isDirectory = false → parsed.size = entry.st.size
  month : parsed.month = tm.mon
  day : parsed.day = tm.mday
  time : parsed.time
    = if format.yearTimeBorder < entry.st.mtime then .clock tm.hour tm.min
      else .year (tm.year + 1900).toNat
  name : parsed.name = entry.name

/-- All of the line has been written, and it is read as it should be. -/
def ParsesBack (gmtime : Gmtime) (self : LsLongFormat) (entry : Entry) (tm : Tm) : Prop :=
  ∃ line parsed, (self.printIt gmtime entry).Holds line ∧ parseLs line = some parsed
    ∧ self.Reads entry tm parsed

def printed (self : LsLongFormat) (entry : Entry) (tm : Tm) : LsLine where
  isDirectory := entry.st.isDirectory
  size := if entry.st.isDirectory then 1 else entry.st.size
  month := tm.mon
  day := tm.mday
  time :=
    if self.yearTimeBorder < entry.st.mtime then .clock tm.min tm.sec
    else .year (tm.year + 1900).toNat
  name := entry.name

def columns (self : LsLongFormat) (entry : Entry) (tm : Tm) : LsColumns where
  mode := if entry.st.isDirectory then bytes "drwxr-xr-x" else bytes "-rw-r--r--"
  size := if entry.st.isDirectory then bytes "1" else decimal entry.st.size
  month := months.getD tm.mon []
  day := decimal tm.mday
  time :=
    if self.yearTimeBorder < entry.st.mtime then decimal tm.min ++ colon :: twoDigits tm.sec
    else decimal (tm.year + 1900).toNat
  sizePad := if entry.st.isDirectory then 7 else 8 - (decimal entry.st.size).length
  dayPad := 2 - (decimal tm.mday).length
  timePad :=
    if self.yearTimeBorder < entry.st.mtime then 2 - (decimal tm.min).length else 1

variable {gmtime : Gmtime} {self : LsLongFormat} {entry : Entry} {tm : Tm} {line : Bytes}

theorem isWords_columns : (columns self entry tm).IsWords := by
  constructor
  · unfold columns
    dsimp only
    split
    · decide
    · decide
  · unfold columns
    dsimp only
    split
    · decide
    · exact isWord_decimal _
  · exact isWord_month tm.mon
  · exact isWord_decimal _
  · unfold columns
    dsimp only
    split
    · exact isWord_clock _ _
    · exact isWord_decimal _

theorem parseLs_columns (hname : IsLineText entry.name) :
    parseLs ((columns self entry tm).text entry.name ++ crlf) = some (printed self entry tm) := by
  apply isWords_columns.parseLs_text hname
  · unfold columns printed
    cases entry.st.isDirectory with
    | true => rfl
    | false => rfl
  · unfold columns printed
    cases entry.st.isDirectory with
    | true => exact (by decide : parseNumber (bytes "1") = some 1)
    | false => exact parseNumber_decimal _
  · exact idxOf?_months tm.mon
  · exact parseNumber_decimal _
  · unfold columns printed
    dsimp only
    split
    · exact parseLsTime_clock _ _
    · exact parseLsTime_year _
  · rfl

def bsString (entry : Entry) : Bytes := if entry.st.isDirectory then bsStrDir else bsStrFile

def sizeText (entry : Entry) : Bytes :=
  if entry.st.isDirectory then bytes "       1 "
  else padLeft space 8 (longLong entry.st.size) ++ [space]

def dateText (self : LsLongFormat) (entry : Entry) (tm : Tm) : Bytes :=
  if self.yearTimeBorder < entry.st.mtime then timeText tm else yearText tm

theorem text_columns (hsize : entry.st.size < 2 ^ 63) (hyear : 0 ≤ tm.year + 1900) :
    (columns self entry tm).text entry.name
      = bsString entry ++ sizeText entry ++ months.getD tm.mon [] ++ dateText self entry tm
        ++ entry.name := by
  have hlong := longLong_eq hsize
  have hsigned : signed (tm.year + 1900) = decimal (tm.year + 1900).toNat := if_pos hyear
  unfold columns bsString sizeText dateText LsColumns.text
  cases entry.st.isDirectory with
  | true =>
      by_cases hrecent : self.yearTimeBorder < entry.st.mtime
      · simp [hrecent, wordsText, timeText, padLeft, bsStrDir, bytes, space, colon]
      · simp [hrecent, wordsText, yearText, padLeft, bsStrDir, bytes, space, hsigned]
  | false =>
      by_cases hrecent : self.yearTimeBorder < entry.st.mtime
      · simp [hrecent, hlong, wordsText, timeText, padLeft, bsStrFile, bytes, space, colon]
      · simp [hrecent, hlong, wordsText, yearText, padLeft, bsStrFile, bytes, space, hsigned]

theorem length_padLeft (fill : UInt8) (width : Nat) (text : Bytes) :
    (padLeft fill width text).length = max width text.length := by
  rw [padLeft, List.length_append, List.length_replicate]
  omega

theorem length_timeText (tm : Tm) : (timeText tm).length < 16 := by
  have hday : (decimal tm.mday).length ≤ 2 := (length_decimal_le (by decide)).mpr (by omega)
  have hmin : (decimal tm.min).length ≤ 2 := (length_decimal_le (by decide)).mpr (by omega)
  have hsec : (decimal tm.sec).length ≤ 2 := (length_decimal_le (by decide)).mpr (by omega)
  simp only [timeText, twoDigits, List.length_append, length_padLeft, List.length_singleton]
  change _ + 1 + _ + 1 < 16
  omega

theorem length_yearText (tm : Tm) (hyear : 0 ≤ tm.year + 1900 ∧ tm.year + 1900 < 10000) :
    (yearText tm).length < 16 := by
  have hday : (decimal tm.mday).length ≤ 2 := (length_decimal_le (by decide)).mpr (by omega)
  have hdigits : (decimal (tm.year + 1900).toNat).length ≤ 4 :=
    (length_decimal_le (by decide)).mpr (by omega)
  have hsigned : signed (tm.year + 1900) = decimal (tm.year + 1900).toNat := if_pos hyear.1
  simp only [yearText, hsigned, List.length_append, length_padLeft, List.length_cons,
    List.length_nil]
  omega

def printSize (entry : Entry) : Cursor UInt8 :=
  let cur := Cursor.start.memcpy (bsString entry)
  if !entry.st.isDirectory then snprintf cur (padLeft space 8 (longLong entry.st.size) ++ [space])
  else cur.memcpy (bytes "       1 ")

theorem printIt_tm (gmtime : Gmtime) (self : LsLongFormat) (entry : Entry) :
    self.printIt gmtime entry
      = (((snprintf ((printSize entry).memcpy (months.getD (gmtime.tm entry.st.mtime).mon []))
          (dateText self entry (gmtime.tm entry.st.mtime))).memcpy entry.name).memcpy [cr]).memcpy
          [lf] := by
  rw [printIt, dateText]
  split
  · rfl
  · rfl

theorem printIt_eq (hgmtime : gmtime entry.st.mtime = some tm) :
    self.printIt gmtime entry
      = (((snprintf ((printSize entry).memcpy (months.getD tm.mon [])) (dateText self entry tm)).memcpy
          entry.name).memcpy [cr]).memcpy [lf] := by
  have htm : gmtime.tm entry.st.mtime = tm := by rw [Gmtime.tm, hgmtime, Option.getD_some]
  rw [printIt_tm, htm]

theorem holds_printSize (hsize : entry.st.isDirectory = false → entry.st.size < 10 ^ 14) :
    (printSize entry).Holds (bsString entry ++ sizeText entry) := by
  have hstart : (Cursor.start.memcpy (bsString entry)).Holds (bsString entry) :=
    holds_start.memcpy (bsString entry)
  unfold printSize sizeText
  cases hdir : entry.st.isDirectory with
  | true => exact hstart.memcpy _
  | false =>
      have hsmall := hsize hdir
      have hdigits : (decimal entry.st.size).length ≤ 14 := (length_decimal_le (by decide)).mpr hsmall
      refine hstart.snprintf ?_
      rw [longLong_eq (by omega), List.length_append, length_padLeft, List.length_singleton]
      omega

/-- What `PrintIt` writes if the size fits. -/
theorem holds_printIt (hgmtime : gmtime entry.st.mtime = some tm)
    (hyear : 0 ≤ tm.year + 1900 ∧ tm.year + 1900 < 10000) (hlong : entry.st.size < 2 ^ 63)
    (hsize : entry.st.isDirectory = false → entry.st.size < 10 ^ 14) :
    (self.printIt gmtime entry).Holds ((columns self entry tm).text entry.name ++ crlf) := by
  have hdate : (dateText self entry tm).length < 16 := by
    rw [dateText]
    split
    · exact length_timeText tm
    · exact length_yearText tm hyear
  have hmonth := (holds_printSize hsize).memcpy (months.getD tm.mon [])
  have hline := (((holds_snprintf hmonth hdate).memcpy entry.name).memcpy [cr]).memcpy [lf]
  rw [printIt_eq hgmtime, text_columns hlong hyear.1]
  have hcrlf : ∀ text : Bytes, text ++ crlf = text ++ [cr] ++ [lf] := fun text => by simp [crlf]
  rw [hcrlf]
  exact hline

/-- A size with more than 14 digits is cut, and a zero byte stands behind 15 of them. -/
theorem cut_of_size (hgmtime : gmtime entry.st.mtime = some tm)
    (hdir : entry.st.isDirectory = false) (hlong : entry.st.size < 2 ^ 63)
    (hlarge : 10 ^ 14 ≤ entry.st.size) (hline : (self.printIt gmtime entry).Holds line) :
    ∃ rest, line = bsStrFile ++ (decimal entry.st.size).take 15 ++ 0 :: rest := by
  have hdigits : 15 ≤ (decimal entry.st.size).length := by
    by_contra hshort
    have hle : (decimal entry.st.size).length ≤ 14 := by omega
    exact absurd ((length_decimal_le (by decide)).mp hle) (by omega)
  have htext : padLeft space 8 (longLong entry.st.size) ++ [space] = decimal entry.st.size ++ [space] := by
    rw [longLong_eq hlong, padLeft, Nat.sub_eq_zero_of_le (by omega), List.replicate_zero,
      List.nil_append]
  have hstart : (Cursor.start.memcpy bsStrFile).Holds bsStrFile := holds_start.memcpy bsStrFile
  have hprintSize : printSize entry
      = snprintf (Cursor.start.memcpy bsStrFile) (decimal entry.st.size ++ [space]) := by
    rw [printSize, bsString, hdir, htext]
    rfl
  have hextends : (printSize entry).Extends (self.printIt gmtime entry) := by
    rw [printIt_eq hgmtime]
    exact ((((extends_put _ _ _).trans (extends_put _ _ _)).trans (extends_put _ _ _)).trans
      (extends_put _ _ _)).trans (extends_put _ _ _)
  have hlength : 16 ≤ (decimal entry.st.size ++ [space]).length := by
    rw [List.length_append, List.length_singleton]
    omega
  have hcut := hstart.cut (by decide) hlength (hprintSize ▸ hextends) hline
  rwa [List.take_append_of_le_length hdigits] at hcut

theorem isLineText_bsStrFile : IsLineText bsStrFile := by decide

/-- A text that is cut goes on behind the zero byte. -/
theorem exists_of_lineText_cut {rest digits text : Bytes} (hdigits : IsWord digits)
    (htext : lineText (bsStrFile ++ digits ++ 0 :: rest) = some text) :
    ∃ rest', text = bsStrFile ++ digits ++ 0 :: rest' := by
  have hplain : ∀ c ∈ bsStrFile ++ digits ++ [0], (c != cr && c != lf) = true := by
    intro c hc
    rw [List.mem_append, List.mem_append, List.mem_singleton] at hc
    rcases hc with (hc | hc) | rfl
    · simpa using isLineText_bsStrFile c hc
    · simpa using (hdigits.plain c hc).2
    · decide
  have htake := takeWhile_of_lineText htext
  rw [List.append_cons, List.takeWhile_append_of_pos hplain] at htake
  exact ⟨_, by rw [← htake, ← List.append_cons]⟩

theorem zero_mem_wordAt_cut (rest : Bytes) {digits : Bytes} (hdigits : IsWord digits) :
    (0 : UInt8) ∈ wordAt (bsStrFile ++ digits ++ 0 :: rest) 4 := by
  have hwords : bsStrFile ++ digits ++ 0 :: rest
      = wordsText [(bytes "-rw-r--r--", 0), (bytes "1", 0), (bytes "ftp", 0), (bytes "ftp", 0)]
          (digits ++ 0 :: rest) := by
    simp [wordsText, bsStrFile, bytes, space]
  have hmode : IsWord (bytes "-rw-r--r--") := by decide
  have hone : IsWord (bytes "1") := by decide
  have hftp : IsWord (bytes "ftp") := by decide
  have hlast : nextWord (wordsText [(bytes "ftp", 0)] (digits ++ 0 :: rest))
      = (bytes "ftp", digits ++ 0 :: rest) :=
    nextWord_append hftp 0 (hdigits.head_ne _)
  have hplain : ∀ c ∈ digits ++ [0], (c != space) = true := by
    intro c hc
    rcases List.mem_append.mp hc with hc | hc
    · simpa using (hdigits.plain c hc).1
    · rw [List.mem_singleton.mp hc]
      decide
  simp only [wordAt, skipWords, hwords, nextWord_wordsText hmode hone,
    nextWord_wordsText hone hftp, nextWord_wordsText hftp hftp, hlast]
  rw [nextWord, List.append_cons, List.takeWhile_append_of_pos hplain]
  simp

/-- A zero byte in the size is no digit. -/
theorem parseLs_of_cut (rest : Bytes) {digits : Bytes} (hdigits : IsWord digits) :
    parseLs (bsStrFile ++ digits ++ 0 :: rest) = none := by
  unfold parseLs
  cases htext : lineText (bsStrFile ++ digits ++ 0 :: rest) with
  | none => rfl
  | some text =>
      obtain ⟨rest', rfl⟩ := exists_of_lineText_cut hdigits htext
      rw [Option.bind_some]
      exact parseLsText_of_size (parseNumber_of_mem (zero_mem_wordAt_cut rest' hdigits) (by decide))

theorem isWord_take (n : Nat) : IsWord ((decimal n).take 15) := by
  have hword := isWord_decimal n
  refine ⟨?_, fun c hc => hword.plain c (List.mem_of_mem_take hc)⟩
  simp [hword.ne_nil]

theorem reads_printed_iff :
    self.Reads entry tm (printed self entry tm)
      ↔ (self.yearTimeBorder < entry.st.mtime → tm.hour.val = tm.min.val ∧ tm.min.val = tm.sec.val) := by
  have hclock : (printed self entry tm).time
        = (if self.yearTimeBorder < entry.st.mtime then .clock tm.hour tm.min
          else .year (tm.year + 1900).toNat)
      ↔ (self.yearTimeBorder < entry.st.mtime →
        tm.hour.val = tm.min.val ∧ tm.min.val = tm.sec.val) := by
    unfold printed
    by_cases hrecent : self.yearTimeBorder < entry.st.mtime
    · simp [hrecent, eq_comm]
    · simp [hrecent]
  constructor
  · intro h
    exact hclock.mp h.time
  · intro h
    refine ⟨rfl, fun hfile => ?_, rfl, rfl, hclock.mpr h, rfl⟩
    rw [printed, hfile]
    rfl

theorem ParsesBack.fits (h : ParsesBack gmtime self entry tm)
    (hgmtime : gmtime entry.st.mtime = some tm) (hsize : entry.st.size < 2 ^ 63)
    (hdir : entry.st.isDirectory = false) : entry.st.size < 10 ^ 14 := by
  obtain ⟨line, parsed, hline, hparse, -⟩ := h
  by_contra hlarge
  obtain ⟨rest, rfl⟩ := cut_of_size hgmtime hdir hsize (Nat.le_of_not_lt hlarge) hline
  rw [parseLs_of_cut rest (isWord_take _)] at hparse
  cases hparse

theorem parsesBack_iff_of_fits (hgmtime : gmtime entry.st.mtime = some tm)
    (hyear : 0 ≤ tm.year + 1900 ∧ tm.year + 1900 < 10000) (hsize : entry.st.size < 2 ^ 63)
    (hname : IsLineText entry.name)
    (hfits : entry.st.isDirectory = false → entry.st.size < 10 ^ 14) :
    ParsesBack gmtime self entry tm
      ↔ (self.yearTimeBorder < entry.st.mtime →
        tm.hour.val = tm.min.val ∧ tm.min.val = tm.sec.val) := by
  rw [← reads_printed_iff]
  have hholds : (self.printIt gmtime entry).Holds ((columns self entry tm).text entry.name ++ crlf) :=
    holds_printIt hgmtime hyear hsize hfits
  constructor
  · rintro ⟨line, parsed, hline, hparse, hreads⟩
    rw [hline.unique hholds, parseLs_columns hname, Option.some.injEq] at hparse
    rwa [hparse]
  · intro hreads
    exact ⟨_, _, hholds, parseLs_columns hname, hreads⟩

end LsLongFormat

open LsLongFormat

/-- **Lines of LIST.** A line is read as it should if and only if its size, unless it is a directory's,
has at most 14 digits and, where the time of the day is printed, the hour, the minute and the second
are the same number: the minute and the second are printed in place of the hour and the minute. -/
theorem ls_parsesBack_iff (gmtime : Gmtime) (format : LsLongFormat) (entry : Entry) (tm : Tm)
    (hname : IsLineText entry.name) (hsize : entry.st.size < 2 ^ 63)
    (hgmtime : gmtime entry.st.mtime = some tm)
    (hyear : 1000 ≤ tm.year + 1900 ∧ tm.year + 1900 ≤ 9999) :
    LsLongFormat.ParsesBack gmtime format entry tm
      ↔ (entry.st.isDirectory = true ∨ entry.st.size < 10 ^ 14)
        ∧ (entry.st.mtime ≤ format.yearTimeBorder
          ∨ tm.hour.val = tm.min.val ∧ tm.min.val = tm.sec.val) := by
  have hfits : (entry.st.isDirectory = true ∨ entry.st.size < 10 ^ 14)
      ↔ (entry.st.isDirectory = false → entry.st.size < 10 ^ 14) := by
    rw [← Bool.not_eq_true, imp_iff_not_or, not_not]
  rw [hfits, ← not_lt, ← imp_iff_not_or]
  constructor
  · intro h
    have hsmall := fun hdir => h.fits hgmtime hsize hdir
    exact ⟨hsmall, (parsesBack_iff_of_fits hgmtime (by omega) hsize hname hsmall).mp h⟩
  · rintro ⟨hsmall, hclock⟩
    exact (parsesBack_iff_of_fits hgmtime (by omega) hsize hname hsmall).mpr hclock

/-- A file that was changed so many seconds after the first of January 1970. -/
def newFile (size : Nat) (mtime : Int) : Entry :=
  { name := bytes "a b", st := { mode := 0o100644, size, mtime } }

def midnight : Tm := { Tm.fallback with year := 70 }

def noon : Tm := { midnight with hour := ⟨12, by decide⟩ }

theorem ls_parsesBack_iff_midnight :
    LsLongFormat.ParsesBack (fun _ => some midnight) (.make 0) (newFile 5 0) midnight
      ↔ ((newFile 5 0).st.isDirectory = true ∨ (newFile 5 0).st.size < 10 ^ 14)
        ∧ ((newFile 5 0).st.mtime ≤ (make 0).yearTimeBorder
          ∨ midnight.hour.val = midnight.min.val ∧ midnight.min.val = midnight.sec.val) :=
  ls_parsesBack_iff _ (.make 0) (newFile 5 0) midnight (by decide) (by decide) rfl (by decide)

/-- Of a file that was changed at noon the line says `0:00`. A size of 15 digits has no space behind
it. -/
theorem not_parsesBack_noon :
    ¬ LsLongFormat.ParsesBack (fun _ => some noon) (.make 0) (newFile 5 43200) noon
      ∧ ¬ LsLongFormat.ParsesBack (fun _ => some midnight) (.make 0) (newFile (10 ^ 14) 0)
        midnight := by
  constructor
  · rw [parsesBack_iff_of_fits rfl (by decide) (by decide) (by decide) (by decide)]
    decide
  · intro h
    exact absurd (h.fits rfl (by decide) (by decide)) (by decide)

end Wfde
