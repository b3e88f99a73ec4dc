import Wfde.Ftp.ListFormats
import Wfde.Proof.Decimal
import Wfde.Proof.MlsdGrammar

/-!
# The lines of MLSD

What `MlsdFormat` writes, and how it is read.
-/

namespace Wfde

namespace MlsdFormat

open Cursor

variable (gmtime : Gmtime) (self : MlsdFormat) (fli : Listed)

/-- The order in which `PrintIt` comes to the facts. -/
def printOrder : List Facts := [.type, .modify, .size, .unique, .perm]

def factValue : Facts → Bytes
  | .type => typeFact fli
  | .modify =>
      let tm := gmtime.tm fli.st.mtime
      signed (tm.year + 1900) ++ twoDigits (tm.mon + 1) ++ twoDigits tm.mday ++ twoDigits tm.hour
        ++ twoDigits tm.min ++ twoDigits tm.sec
  | .size => decimal fli.st.size
  | .unique => fli.getUniqueFact
  | .perm => permFact fli

def enabledFacts : List (Bytes × Bytes) :=
  (printOrder.filter self.state.isEnabled).map fun fact =>
    (MdtxState.factName fact, factValue gmtime fli fact)

/-- The numbers that are printed with a limit. -/
structure Fits (format : MlsdFormat) : Prop where
  size : format.state.isEnabled .size = true → fli.st.size < 10 ^ 15
  modify : format.state.isEnabled .modify = true → (factValue gmtime fli .modify).length < 16

/-- The text of a fact, or nothing. -/
def factText (fact : Facts) : Bytes :=
  if self.state.isEnabled fact then
    MdtxState.factName fact ++ equalsSign :: factValue gmtime fli fact ++ [semicolon]
  else []

theorem factsText_enabledFacts :
    factsText (self.enabledFacts gmtime fli) = printOrder.flatMap (self.factText gmtime fli) := by
  unfold enabledFacts
  induction printOrder with
  | nil => rfl
  | cons fact facts ih =>
      rw [List.filter_cons, List.flatMap_cons, ← ih, factText]
      cases self.state.isEnabled fact with
      | true => rw [if_pos rfl, if_pos rfl, List.map_cons, factsText, List.flatMap_cons, ← factsText]
      | false => rw [if_neg Bool.false_ne_true, if_neg Bool.false_ne_true, List.nil_append]

variable {cur : Cursor UInt8} {text : Bytes}

theorem holds_printFact (fact : Facts) (value : Cursor UInt8 → Cursor UInt8) (h : cur.Holds text)
    (hvalue : self.state.isEnabled fact = true → ∀ {cur : Cursor UInt8} {text : Bytes},
      cur.Holds text → (value cur).Holds (text ++ factValue gmtime fli fact)) :
    (self.printFact fact value cur).Holds (text ++ self.factText gmtime fli fact) := by
  unfold printFact factText
  cases henabled : self.state.isEnabled fact with
  | true =>
      rw [if_pos rfl, if_pos rfl]
      have hfact := (hvalue henabled ((h.memcpy (MdtxState.factName fact)).memcpy (bytes "="))).memcpy
        (bytes ";")
      have heq : text ++ (MdtxState.factName fact ++ equalsSign :: factValue gmtime fli fact
            ++ [semicolon])
          = text ++ MdtxState.factName fact ++ bytes "=" ++ factValue gmtime fli fact ++ bytes ";" := by
        simp [bytes, equalsSign, semicolon]
      rwa [heq]
  | false =>
      rw [if_neg Bool.false_ne_true, if_neg Bool.false_ne_true, List.append_nil]
      exact h

variable {gmtime self fli}

theorem holds_longLong {n : Nat} (h : cur.Holds text) (hn : n < 10 ^ 15) :
    (snprintf cur (longLong n)).Holds (text ++ decimal n) := by
  have hlength : (decimal n).length ≤ 15 := (length_decimal_le (by decide)).mpr hn
  rw [longLong_eq (by omega)]
  exact holds_snprintf h (by omega)

def printFacts (gmtime : Gmtime) (self : MlsdFormat) (fli : Listed) : Cursor UInt8 :=
  let cur := Cursor.start.memcpy [space]
  let cur := self.printFact .type (fun cur => cur.memcpy (typeFact fli)) cur
  let cur := self.printFact .modify (printTimeval gmtime fli.st.mtime) cur
  let cur := self.printFact .size (fun cur => snprintf cur (longLong fli.st.size)) cur
  let cur := self.printFact .unique (fun cur => cur.memcpy fli.getUniqueFact) cur
  self.printFact .perm (fun cur => cur.memcpy (permFact fli)) cur

theorem holds_printFacts (hfits : self.Fits gmtime fli) :
    (self.printFacts gmtime fli).Holds (space :: factsText (self.enabledFacts gmtime fli)) := by
  have hspace : (Cursor.start.memcpy [space]).Holds [space] := holds_start.memcpy [space]
  have htype := holds_printFact gmtime self fli .type (fun cur => cur.memcpy (typeFact fli)) hspace
    fun _ _ _ h => h.memcpy _
  have hmodify := holds_printFact gmtime self fli .modify (printTimeval gmtime fli.st.mtime) htype
    fun henabled _ _ h => holds_strftime h (hfits.modify henabled)
  have hsize := holds_printFact gmtime self fli .size
    (fun cur => snprintf cur (longLong fli.st.size)) hmodify
    fun henabled _ _ h => holds_longLong h (hfits.size henabled)
  have hunique := holds_printFact gmtime self fli .unique (fun cur => cur.memcpy fli.getUniqueFact)
    hsize fun _ _ _ h => h.memcpy _
  have hperm := holds_printFact gmtime self fli .perm (fun cur => cur.memcpy (permFact fli)) hunique
    fun _ _ _ h => h.memcpy _
  have heq : space :: factsText (self.enabledFacts gmtime fli)
      = [space] ++ self.factText gmtime fli .type ++ self.factText gmtime fli .modify
        ++ self.factText gmtime fli .size ++ self.factText gmtime fli .unique
        ++ self.factText gmtime fli .perm := by
    rw [factsText_enabledFacts, printOrder]
    simp
  rwa [heq]

theorem printIt_eq (gmtime : Gmtime) (self : MlsdFormat) (fli : Listed) :
    self.printIt gmtime fli
      = let cur := self.printFacts gmtime fli
        let cur := if cur.cell (cur.pos - 1) != some space then cur.memcpy [space] else cur
        ((cur.memcpy fli.name).memcpy [cr]).memcpy [lf] := rfl

/-- The space in front of the name is there once. -/
theorem printIt_of_holds {front : Bytes} {last : UInt8}
    (h : (self.printFacts gmtime fli).Holds (front ++ [last])) :
    (self.printIt gmtime fli).Holds
      (front ++ [last] ++ (if last = space then [] else [space]) ++ fli.name ++ crlf) := by
  have hcrlf : ∀ text : Bytes, text ++ crlf = text ++ [cr] ++ [lf] := fun text => by simp [crlf]
  rw [printIt_eq, hcrlf]
  dsimp only
  rw [h.cell_last]
  by_cases hlast : last = space
  · subst hlast
    have heq : ¬ (some space != some space) = true := by simp
    rw [if_pos rfl, if_neg heq, List.append_nil]
    exact ((h.memcpy _).memcpy _).memcpy _
  · have hne : (some last != some space) = true := by simpa using hlast
    rw [if_neg hlast, if_pos hne]
    exact (((h.memcpy _).memcpy _).memcpy _).memcpy _

/-- What `PrintIt` writes if the numbers fit: a space, and behind it the facts that are enabled, a space
if there are any, the name and CR LF. -/
theorem holds_printIt (hfits : self.Fits gmtime fli) :
    (self.printIt gmtime fli).Holds
      (space :: factsText (self.enabledFacts gmtime fli)
        ++ (if self.enabledFacts gmtime fli = [] then [] else [space]) ++ fli.name ++ crlf) := by
  have hfacts := holds_printFacts hfits
  generalize self.enabledFacts gmtime fli = facts at hfacts
  rcases List.eq_nil_or_concat' facts with rfl | ⟨others, fact, rfl⟩
  · exact printIt_of_holds (show (self.printFacts gmtime fli).Holds ([] ++ [space]) from hfacts)
  · have hconcat : space :: factsText (others ++ [fact])
        = (space :: factsText others ++ (fact.1 ++ equalsSign :: fact.2)) ++ [semicolon] := by
      simp [factsText]
    rw [hconcat] at hfacts ⊢
    have hline := printIt_of_holds hfacts
    rw [if_neg (by decide : semicolon ≠ space)] at hline
    rwa [if_neg (by simp : others ++ [fact] ≠ [])]

/-- Only one bit is compared with itself. -/
theorem eq_size_of_isEnabled {state : MdtxState} {fact : Facts} (h : state.isEnabled fact = true) :
    fact = .size := by
  have hmask : state.factBits &&& MdtxState.factBit fact = 1 := by simpa [MdtxState.isEnabled] using h
  have htwice : (1 : UInt32) &&& MdtxState.factBit fact = 1 := by
    rw [← hmask, UInt32.and_assoc, UInt32.and_self]
  cases fact with
  | size => rfl
  | modify => exact absurd htwice (by decide)
  | type => exact absurd htwice (by decide)
  | unique => exact absurd htwice (by decide)
  | perm => exact absurd htwice (by decide)

theorem enabledFacts_eq (gmtime : Gmtime) (self : MlsdFormat) (fli : Listed) :
    self.enabledFacts gmtime fli
      = if self.state.isEnabled .size then [(bytes "Size", decimal fli.st.size)] else [] := by
  have hnot : ∀ fact, fact ≠ .size → self.state.isEnabled fact = false := fun fact hne =>
    Bool.eq_false_iff.mpr fun h => hne (eq_size_of_isEnabled h)
  unfold enabledFacts printOrder
  cases hsize : self.state.isEnabled .size with
  | true => simp [hsize, hnot, MdtxState.factName, factValue]
  | false => simp [hsize, hnot]

end MlsdFormat

theorem isFact_size (n : Nat) : IsFact (bytes "Size", decimal n) := by
  constructor
  · have hletters : (bytes "Size").all isAlpha = true := by decide
    intro c hc
    have hletter := List.all_eq_true.mp hletters c hc
    refine ⟨?_, ?_, ?_, ?_, ?_⟩ <;> rintro rfl <;> exact absurd hletter (by decide)
  · intro c hc
    have hdigit := isDigit_of_mem_decimal hc
    refine ⟨?_, ?_, ?_, ?_⟩ <;> rintro rfl <;> exact absurd hdigit (by decide)

namespace MlsdFormat

open Cursor

theorem extends_printIt (gmtime : Gmtime) (self : MlsdFormat) (fli : Listed) :
    (self.printFacts gmtime fli).Extends (self.printIt gmtime fli) := by
  rw [printIt_eq]
  dsimp only
  split
  · exact (((extends_put _ _ _).trans (extends_put _ _ _)).trans (extends_put _ _ _)).trans
      (extends_put _ _ _)
  · exact ((extends_put _ _ _).trans (extends_put _ _ _)).trans (extends_put _ _ _)

theorem printFacts_of_size (gmtime : Gmtime) {self : MlsdFormat} (fli : Listed)
    (h : self.state.isEnabled .size = true) :
    self.printFacts gmtime fli
      = (snprintf (((Cursor.start.memcpy [space]).memcpy (bytes "Size")).memcpy (bytes "="))
          (longLong fli.st.size)).memcpy (bytes ";") := by
  have hnot : ∀ fact, fact ≠ .size → self.state.isEnabled fact = false := fun fact hne =>
    Bool.eq_false_iff.mpr fun h => hne (eq_size_of_isEnabled h)
  simp only [printFacts, printFact, h, hnot .type (by decide), hnot .modify (by decide),
    hnot .unique (by decide), hnot .perm (by decide), if_true, Bool.false_eq_true, if_false]
  rfl

/-- A size with more than 15 digits is cut, and a zero byte stands behind the 15. -/
theorem cut_of_size {gmtime : Gmtime} {self : MlsdFormat} {fli : Listed} {line : Bytes}
    (h : self.state.isEnabled .size = true) (hsize : fli.st.size < 2 ^ 63)
    (hlarge : 10 ^ 15 ≤ fli.st.size) (hline : (self.printIt gmtime fli).Holds line) :
    ∃ rest, line = space :: bytes "Size=" ++ (decimal fli.st.size).take 15 ++ 0 :: rest := by
  have hlabel : (((Cursor.start.memcpy [space]).memcpy (bytes "Size")).memcpy (bytes "=")).Holds
      (space :: bytes "Size=") :=
    ((holds_start.memcpy [space]).memcpy (bytes "Size")).memcpy (bytes "=")
  have hlength : 16 ≤ (longLong fli.st.size).length := by
    rw [longLong_eq hsize]
    by_contra hshort
    have hle : (decimal fli.st.size).length ≤ 15 := by omega
    exact absurd ((length_decimal_le (by decide)).mp hle) (by omega)
  have hextends := (extends_put _ _ _).trans
    (printFacts_of_size gmtime fli h ▸ extends_printIt gmtime self fli)
  rw [← longLong_eq hsize]
  exact hlabel.cut (by decide) hlength hextends hline

end MlsdFormat

open MlsdFormat

def mlsdFacts (gmtime : Gmtime) (format : MlsdFormat) (fli : Listed) : List (Bytes × Bytes) × Bytes :=
  (format.enabledFacts gmtime fli, fli.name)

/-- All of the line has been written, and it is read as the facts that are enabled and the name. -/
def ParsesBack (gmtime : Gmtime) (format : MlsdFormat) (fli : Listed) : Prop :=
  ∃ line, (format.printIt gmtime fli).Holds line
    ∧ parseMlsd line = some (mlsdFacts gmtime format fli)

/-- The same, when a space in front of the line may be left out. -/
def ParsesBehindSpace (gmtime : Gmtime) (format : MlsdFormat) (fli : Listed) : Prop :=
  ∃ line, (format.printIt gmtime fli).Holds line
    ∧ (parseMlsd line = some (mlsdFacts gmtime format fli)
      ∨ ∃ rest, line = space :: rest ∧ parseMlsd rest = some (mlsdFacts gmtime format fli))

section ParsesBack

variable {gmtime : Gmtime} {format : MlsdFormat} {fli : Listed} {line : Bytes}

theorem holds_of_disabled (h : format.state.isEnabled .size = false) :
    (format.printIt gmtime fli).Holds (mlsdLine [] fli.name) := by
  have hfits : format.Fits gmtime fli := by
    refine ⟨fun henabled => ?_, fun henabled => ?_⟩
    · simp [h] at henabled
    · exact absurd (eq_size_of_isEnabled henabled) (by decide)
  have hline := holds_printIt hfits
  rw [enabledFacts_eq, h, if_neg Bool.false_ne_true, if_pos rfl] at hline
  exact hline

theorem holds_of_enabled (h : format.state.isEnabled .size = true) (hsmall : fli.st.size < 10 ^ 15) :
    (format.printIt gmtime fli).Holds
      (space :: mlsdLine [(bytes "Size", decimal fli.st.size)] fli.name) := by
  have hfits : format.Fits gmtime fli :=
    ⟨fun _ => hsmall, fun henabled => absurd (eq_size_of_isEnabled henabled) (by decide)⟩
  have hline := holds_printIt hfits
  rw [enabledFacts_eq, h, if_pos rfl, if_neg (List.cons_ne_nil _ _), List.append_assoc,
    List.append_assoc] at hline
  rw [mlsdLine, List.append_assoc]
  exact hline

theorem cons_of_enabled (h : format.state.isEnabled .size = true) (hsize : fli.st.size < 2 ^ 63)
    (hline : (format.printIt gmtime fli).Holds line) : ∃ rest, line = space :: rest := by
  by_cases hsmall : fli.st.size < 10 ^ 15
  · exact ⟨_, hline.unique (holds_of_enabled h hsmall)⟩
  · obtain ⟨rest, hcut⟩ := cut_of_size h hsize (Nat.le_of_not_lt hsmall) hline
    exact ⟨_, hcut⟩

theorem mlsdFacts_of_enabled (h : format.state.isEnabled .size = true) :
    mlsdFacts gmtime format fli = ([(bytes "Size", decimal fli.st.size)], fli.name) := by
  rw [mlsdFacts, enabledFacts_eq, h, if_pos rfl]

theorem not_parse_of_enabled (h : format.state.isEnabled .size = true) (hsize : fli.st.size < 2 ^ 63)
    (hline : (format.printIt gmtime fli).Holds line) :
    parseMlsd line ≠ some (mlsdFacts gmtime format fli) := by
  intro hparse
  obtain ⟨rest, rfl⟩ := cons_of_enabled h hsize hline
  rw [mlsdFacts_of_enabled h] at hparse
  exact absurd (facts_of_parseMlsd_space hparse) (List.cons_ne_nil _ _)

/-- Behind 15 digits there is a zero byte, where another digit should be. -/
theorem ne_mlsdLine_of_cut {n : Nat} (hlarge : 10 ^ 15 ≤ n) (rest name : Bytes) :
    bytes "Size=" ++ (decimal n).take 15 ++ 0 :: rest ≠ mlsdLine [(bytes "Size", decimal n)] name := by
  intro hline
  have hlabel : mlsdLine [(bytes "Size", decimal n)] name
      = bytes "Size=" ++ (decimal n ++ (semicolon :: space :: name ++ crlf)) := by
    simp [mlsdLine, factsText, bytes, equalsSign]
  rw [hlabel, List.append_assoc, List.append_cancel_left_eq] at hline
  conv_rhs at hline => rw [← List.take_append_drop 15 (decimal n), List.append_assoc]
  rw [List.append_cancel_left_eq] at hline
  obtain ⟨c, others, hcons⟩ := List.exists_cons_of_ne_nil
    (show (decimal n).drop 15 ≠ [] by
      intro hnil
      have hle : (decimal n).length ≤ 15 := List.drop_eq_nil_iff.mp hnil
      exact absurd ((length_decimal_le (by decide)).mp hle) (by omega))
  rw [hcons, List.cons_append] at hline
  have hdigit : isDigit c = true :=
    isDigit_of_mem_decimal (List.mem_of_mem_drop (hcons ▸ List.mem_cons_self))
  rw [← (List.cons.inj hline).1] at hdigit
  exact absurd hdigit (by decide)

theorem not_parsesBack_of_enabled (h : format.state.isEnabled .size = true)
    (hsize : fli.st.size < 2 ^ 63) : ¬ ParsesBack gmtime format fli := by
  rintro ⟨line, hline, hparse⟩
  exact not_parse_of_enabled h hsize hline hparse

theorem not_parsesBehindSpace_of_large (h : format.state.isEnabled .size = true)
    (hsize : fli.st.size < 2 ^ 63) (hlarge : 10 ^ 15 ≤ fli.st.size) :
    ¬ ParsesBehindSpace gmtime format fli := by
  rintro ⟨line, hline, hparse⟩
  obtain ⟨rest, hcut⟩ := cut_of_size h hsize hlarge hline
  rcases hparse with hparse | ⟨rest', rfl, hparse⟩
  · exact not_parse_of_enabled h hsize hline hparse
  · obtain rfl := (List.cons.inj hcut).2
    rw [mlsdFacts_of_enabled h] at hparse
    exact ne_mlsdLine_of_cut hlarge _ _ (eq_of_parseMlsd hparse).1

end ParsesBack

/-- **Lines of MLSD.** A line is read as it should if and only if no size is in it, which is the only
fact that can be: with facts there is a space in front of them. Apart from that space a line is read
as it should if and only if the size, where it is in it, has at most 15 digits. -/
theorem mlsd_parsesBack_iff (gmtime : Gmtime) (format : MlsdFormat) (fli : Listed)
    (hname : IsLineText fli.name) (hsize : fli.st.size < 2 ^ 63) :
    (ParsesBack gmtime format fli ↔ format.state.isEnabled .size = false)
      ∧ (ParsesBehindSpace gmtime format fli
        ↔ (format.state.isEnabled .size = true → fli.st.size < 10 ^ 15)) := by
  have hdisabled (h : format.state.isEnabled .size = false) : ParsesBack gmtime format fli := by
    refine ⟨_, holds_of_disabled h, ?_⟩
    rw [parseMlsd_mlsdLine (by simp) hname, mlsdFacts, enabledFacts_eq, h,
      if_neg Bool.false_ne_true]
  constructor
  · constructor
    · intro hparses
      by_contra henabled
      exact not_parsesBack_of_enabled (Bool.eq_true_of_not_eq_false henabled) hsize hparses
    · exact hdisabled
  · constructor
    · intro hparses henabled
      by_contra hlarge
      exact not_parsesBehindSpace_of_large henabled hsize (Nat.le_of_not_lt hlarge) hparses
    · intro hsmall
      cases henabled : format.state.isEnabled .size with
      | false =>
          obtain ⟨line, hline, hparse⟩ := hdisabled henabled
          exact ⟨line, hline, Or.inl hparse⟩
      | true =>
          refine ⟨_, holds_of_enabled henabled (hsmall henabled), Or.inr ⟨_, rfl, ?_⟩⟩
          rw [mlsdFacts_of_enabled henabled]
          refine parseMlsd_mlsdLine (fun fact hfact => ?_) hname
          rw [List.mem_singleton.mp hfact]
          exact isFact_size fli.st.size

/-- A file of 1970 in a directory whose files can be read. -/
def plainFile (size : Nat) : Listed where
  name := bytes "a"
  st := { mode := 0o100644, size }
  path := some (.make (bytes "/") [bytes "srv"] (Path.toPermBits [.canRead, .canList]))
  asserted _ := rfl

def epoch : Gmtime := fun _ => some { Tm.fallback with year := 70 }

theorem mlsd_parsesBack_iff_plainFile :
    (ParsesBack epoch ⟨{}⟩ (plainFile 5) ↔ MdtxState.isEnabled {} .size = false)
      ∧ (ParsesBehindSpace epoch ⟨{}⟩ (plainFile 5)
        ↔ (MdtxState.isEnabled {} .size = true → (plainFile 5).st.size < 10 ^ 15)) :=
  mlsd_parsesBack_iff epoch ⟨{}⟩ (plainFile 5) (by decide) (by decide)

/-- ` Size=5; a` is read as a file of the name `Size=5; a`. Of a size of 16 digits the last one is
missing. -/
theorem not_parsesBack_plainFile :
    ¬ ParsesBack epoch ⟨{}⟩ (plainFile 5) ∧ ¬ ParsesBehindSpace epoch ⟨{}⟩ (plainFile (10 ^ 15)) :=
  ⟨not_parsesBack_of_enabled (by decide) (by decide),
    not_parsesBehindSpace_of_large (by decide) (by decide) (by decide)⟩

end Wfde
