import Wfde.Proof.Decimal
import Wfde.Proof.MlsdGrammar

/-!
# Reading a long listing

How a client reads a line of `ls -l`: the words from left to right, with any number of spaces between
them, and the name behind exactly one.
-/

namespace Wfde

open Segments

def colon : UInt8 := 58

/-- A word, and what comes behind the spaces that follow it. -/
def nextWord (text : Bytes) : Bytes × Bytes :=
  (text.takeWhile (· != space), (text.dropWhile (· != space)).dropWhile (· == space))

def skipWords : Nat → Bytes → Bytes
  | 0, text => text
  | n + 1, text => skipWords n (nextWord text).2

def wordAt (text : Bytes) (n : Nat) : Bytes := (nextWord (skipWords n text)).1

/-- The last column in front of the name. -/
inductive LsTime where
  | clock (hour minute : Nat)
  | year (year : Nat)
  deriving DecidableEq

structure LsLine where
  isDirectory : Bool
  size : Nat
  month : Nat
  day : Nat
  time : LsTime
  name : Bytes
  deriving DecidableEq

def parseMode (word : Bytes) : Option Bool :=
  if word.head? = some 100 then some true else if word.head? = some 45 then some false else none

def parseNumber (word : Bytes) : Option Nat :=
  if word ≠ [] ∧ word.all isDigit then some (ofDigits word) else none

def parseLsTime (word : Bytes) : Option LsTime :=
  match word.dropWhile (· != colon) with
  | _ :: minute => do
      let hour ← parseNumber (word.takeWhile (· != colon))
      return .clock hour (← parseNumber minute)
  | [] => do return .year (← parseNumber word)

/-- Mode, links, owner, group, size, month, day, the time or the year, and the name. -/
def parseLsText (text : Bytes) : Option LsLine := do
  let isDirectory ← parseMode (wordAt text 0)
  let size ← parseNumber (wordAt text 4)
  let month ← LsLongFormat.months.idxOf? (wordAt text 5)
  let day ← parseNumber (wordAt text 6)
  let time ← parseLsTime ((skipWords 7 text).takeWhile (· != space))
  let name ← ((skipWords 7 text).dropWhile (· != space)).tail?
  return { isDirectory, size, month, day, time, name }

def parseLs (line : Bytes) : Option LsLine := (lineText line).bind parseLsText

structure IsWord (word : Bytes) : Prop where
  ne_nil : word ≠ []
  plain : ∀ c ∈ word, c ≠ space ∧ c ≠ cr ∧ c ≠ lf

instance (word : Bytes) : Decidable (IsWord word) :=
  have := List.decidableBAll (fun c => c ≠ space ∧ c ≠ cr ∧ c ≠ lf) word
  decidable_of_iff (word ≠ [] ∧ ∀ c ∈ word, c ≠ space ∧ c ≠ cr ∧ c ≠ lf)
    ⟨fun h => ⟨h.1, h.2⟩, fun h => ⟨h.1, h.2⟩⟩

variable {word rest : Bytes}

theorem IsWord.space_not_mem (h : IsWord word) : space ∉ word := fun hmem => (h.plain _ hmem).1 rfl

theorem IsWord.head_ne (h : IsWord word) (rest : Bytes) : (word ++ rest).head? ≠ some space := by
  obtain ⟨c, others, rfl⟩ := List.exists_cons_of_ne_nil h.ne_nil
  have hc := (h.plain c List.mem_cons_self).1
  simpa using hc

theorem nextWord_append (h : IsWord word) (k : Nat) (hrest : rest.head? ≠ some space) :
    nextWord (word ++ space :: (List.replicate k space ++ rest)) = (word, rest) := by
  have hspaces : ∀ c ∈ List.replicate k space, (c == space) = true := fun c hc => by
    simpa using (List.mem_replicate.mp hc).2
  have hdrop : rest.dropWhile (· == space) = rest := by
    cases rest with
    | nil => rfl
    | cons c rest => exact List.dropWhile_cons_of_neg (by simpa using hrest)
  rw [nextWord, takeWhile_append_sep h.space_not_mem, dropWhile_append_sep h.space_not_mem,
    List.dropWhile_cons_of_pos (by decide), List.dropWhile_append_of_pos hspaces, hdrop]

theorem isWord_decimal (n : Nat) : IsWord (decimal n) := by
  refine ⟨decimal_ne_nil n, fun c hc => ?_⟩
  have hdigit := isDigit_of_mem_decimal hc
  refine ⟨?_, ?_, ?_⟩ <;> rintro rfl <;> exact absurd hdigit (by decide)

theorem parseNumber_decimal (n : Nat) : parseNumber (decimal n) = some n := by
  rw [parseNumber, if_pos ⟨decimal_ne_nil n, List.all_eq_true.mpr fun c => isDigit_of_mem_decimal⟩,
    ofDigits_decimal]

/-- Words, each with a space behind it and as many more as its number says. -/
def wordsText (words : List (Bytes × Nat)) (rest : Bytes) : Bytes :=
  words.foldr (fun word rest => word.1 ++ space :: (List.replicate word.2 space ++ rest)) rest

theorem wordsText_cons (word : Bytes × Nat) (words : List (Bytes × Nat)) (rest : Bytes) :
    wordsText (word :: words) rest
      = word.1 ++ space :: (List.replicate word.2 space ++ wordsText words rest) := rfl

theorem isLineText_wordsText {words : List (Bytes × Nat)} (h : ∀ word ∈ words, IsWord word.1)
    (hrest : IsLineText rest) : IsLineText (wordsText words rest) := by
  induction words with
  | nil => exact hrest
  | cons word words ih =>
      have hword := h word List.mem_cons_self
      have hwords := ih fun other hother => h other (List.mem_cons_of_mem _ hother)
      intro c hc
      rw [wordsText_cons, List.mem_append, List.mem_cons, List.mem_append] at hc
      rcases hc with hc | rfl | hc | hc
      · exact (hword.plain c hc).2
      · decide
      · rw [(List.mem_replicate.mp hc).2]
        decide
      · exact hwords c hc

theorem nextWord_wordsText {word next : Bytes} {k l : Nat} {words : List (Bytes × Nat)}
    (hword : IsWord word) (hnext : IsWord next) :
    nextWord (wordsText ((word, k) :: (next, l) :: words) rest)
      = (word, wordsText ((next, l) :: words) rest) :=
  nextWord_append hword k (hnext.head_ne _)

structure LsColumns where
  mode : Bytes
  size : Bytes
  month : Bytes
  day : Bytes
  time : Bytes
  /-- how many spaces too many there are in front of the size, the day and the time -/
  sizePad : Nat
  dayPad : Nat
  timePad : Nat

def LsColumns.text (columns : LsColumns) (name : Bytes) : Bytes :=
  wordsText
    [(columns.mode, 0), (bytes "1", 0), (bytes "ftp", 0), (bytes "ftp", columns.sizePad),
      (columns.size, 0), (columns.month, columns.dayPad), (columns.day, columns.timePad)]
    (columns.time ++ space :: name)

structure LsColumns.IsWords (columns : LsColumns) : Prop where
  mode : IsWord columns.mode
  size : IsWord columns.size
  month : IsWord columns.month
  day : IsWord columns.day
  time : IsWord columns.time

variable {columns : LsColumns} {name : Bytes}

theorem LsColumns.IsWords.wordAt_text (h : columns.IsWords) (name : Bytes) :
    wordAt (columns.text name) 0 = columns.mode
      ∧ wordAt (columns.text name) 4 = columns.size
      ∧ wordAt (columns.text name) 5 = columns.month
      ∧ wordAt (columns.text name) 6 = columns.day
      ∧ skipWords 7 (columns.text name) = columns.time ++ space :: name := by
  have hone : IsWord (bytes "1") := by decide
  have hftp : IsWord (bytes "ftp") := by decide
  have hday : nextWord (wordsText [(columns.day, columns.timePad)] (columns.time ++ space :: name))
      = (columns.day, columns.time ++ space :: name) :=
    nextWord_append h.day columns.timePad (h.time.head_ne _)
  simp only [wordAt, skipWords, LsColumns.text, nextWord_wordsText h.mode hone,
    nextWord_wordsText hone hftp, nextWord_wordsText hftp hftp, nextWord_wordsText hftp h.size,
    nextWord_wordsText h.size h.month, nextWord_wordsText h.month h.day, hday, and_self]

theorem LsColumns.IsWords.isLineText (h : columns.IsWords) (hname : IsLineText name) :
    IsLineText (columns.text name) := by
  refine isLineText_wordsText ?_ ?_
  · simp only [List.forall_mem_cons, List.not_mem_nil, IsEmpty.forall_iff, implies_true, and_true]
    exact ⟨h.mode, by decide, by decide, by decide, h.size, h.month, h.day⟩
  · intro c hc
    rcases List.mem_append.mp hc with hc | hc
    · exact (h.time.plain c hc).2
    · rcases List.mem_cons.mp hc with rfl | hc
      · decide
      · exact hname c hc

theorem LsColumns.IsWords.parseLs_text {parsed : LsLine} (h : columns.IsWords)
    (hname : IsLineText name) (hmode : parseMode columns.mode = some parsed.isDirectory)
    (hsize : parseNumber columns.size = some parsed.size)
    (hmonth : LsLongFormat.months.idxOf? columns.month = some parsed.month)
    (hday : parseNumber columns.day = some parsed.day)
    (htime : parseLsTime columns.time = some parsed.time) (hparsed : parsed.name = name) :
    parseLs (columns.text name ++ crlf) = some parsed := by
  obtain ⟨hmodeAt, hsizeAt, hmonthAt, hdayAt, hskip⟩ := h.wordAt_text name
  rw [parseLs, lineText_append (h.isLineText hname), Option.bind_some, parseLsText, hmodeAt, hsizeAt, hmonthAt, hdayAt, hskip,
    takeWhile_append_sep h.time.space_not_mem, dropWhile_append_sep h.time.space_not_mem, hmode,
    hsize, hmonth, hday, htime, ← hparsed]
  rfl

theorem parseNumber_of_mem {c : UInt8} (hc : c ∈ word) (hdigit : isDigit c = false) :
    parseNumber word = none := by
  rw [parseNumber, if_neg]
  rintro ⟨-, hall⟩
  rw [List.all_eq_true.mp hall c hc] at hdigit
  cases hdigit

theorem parseLsText_of_size {text : Bytes} (h : parseNumber (wordAt text 4) = none) :
    parseLsText text = none := by
  rw [parseLsText, h]
  cases parseMode (wordAt text 0) with
  | none => rfl
  | some isDirectory => rfl

section Numbers

theorem parseNumber_twoDigits (n : Nat) : parseNumber (twoDigits n) = some n := by
  have hdigits : (twoDigits n).all isDigit = true :=
    List.all_eq_true.mpr fun c => isDigit_of_mem_twoDigits
  rw [parseNumber, if_pos ⟨twoDigits_ne_nil n, hdigits⟩, twoDigits, padLeft, ofDigits_replicate,
    ofDigits_decimal]

theorem colon_not_mem_decimal (n : Nat) : colon ∉ decimal n := fun h =>
  absurd (isDigit_of_mem_decimal h) (by decide)

theorem parseLsTime_clock (hour minute : Nat) :
    parseLsTime (decimal hour ++ colon :: twoDigits minute) = some (.clock hour minute) := by
  rw [parseLsTime, dropWhile_append_sep (colon_not_mem_decimal hour),
    takeWhile_append_sep (colon_not_mem_decimal hour), parseNumber_decimal]
  dsimp only
  rw [parseNumber_twoDigits]
  rfl

theorem parseLsTime_year (year : Nat) : parseLsTime (decimal year) = some (.year year) := by
  have hdrop : (decimal year).dropWhile (· != colon) = [] :=
    List.dropWhile_eq_nil_iff.mpr fun c hc => by
      simpa using ne_of_mem_of_not_mem hc (colon_not_mem_decimal year)
  rw [parseLsTime, hdrop, parseNumber_decimal]
  rfl

theorem idxOf?_months (mon : Fin 12) :
    LsLongFormat.months.idxOf? (LsLongFormat.months.getD mon []) = some mon.val := by
  revert mon
  decide

theorem isWord_month (mon : Fin 12) : IsWord (LsLongFormat.months.getD mon []) := by
  revert mon
  decide

theorem isWord_clock (hour minute : Nat) : IsWord (decimal hour ++ colon :: twoDigits minute) := by
  refine ⟨by simp [decimal_ne_nil], fun c hc => ?_⟩
  rcases List.mem_append.mp hc with hc | hc
  · exact (isWord_decimal hour).plain c hc
  · rcases List.mem_cons.mp hc with rfl | hc
    · decide
    · have hdigit := isDigit_of_mem_twoDigits hc
      refine ⟨?_, ?_, ?_⟩ <;> rintro rfl <;> exact absurd hdigit (by decide)

end Numbers

end Wfde
