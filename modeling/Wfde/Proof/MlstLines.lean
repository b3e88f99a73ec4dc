import Wfde.Proof.DirectoryListing
import Wfde.Proof.MlsdLines
import Wfde.Proof.PlainPaths

/-!
# The line of MLST

What `GetMlstFacts` returns, byte for byte: the line of `MlsdFormat` over what the buffer has held
before. The only bytes that are not written are those behind the terminator of a size that does not
fit.
-/

namespace Wfde

namespace MlsdFormat

open Cursor

variable {gmtime : Gmtime} {self : MlsdFormat} {fli : Listed} {memory : Nat → UInt8}

theorem printFacts_of_disabled (h : self.state.isEnabled .size = false) :
    self.printFacts gmtime fli = Cursor.start.memcpy [space] := by
  have hnot : ∀ fact, self.state.isEnabled fact = false := fun fact =>
    Bool.eq_false_iff.mpr fun henabled => by
      rw [eq_size_of_isEnabled henabled, h] at henabled
      cases henabled
  simp [printFacts, printFact, hnot]

theorem onto_printIt {last : UInt8} (h : (self.printFacts gmtime fli).cell
      ((self.printFacts gmtime fli).pos - 1) = some last) :
    (self.printIt gmtime fli).onto memory
      = (self.printFacts gmtime fli).onto memory ++ (if last = space then [] else [space]) ++ fli.name
        ++ crlf := by
  rw [printIt_eq]
  dsimp only
  rw [h]
  by_cases hlast : last = space
  · simp [hlast, onto_memcpy, crlf]
  · simp [hlast, onto_memcpy, crlf]

/-- What stands for the size, behind the six bytes of its label. -/
def sizeText (memory : Nat → UInt8) (size : Nat) : Bytes :=
  let text := longLong size
  if text.length < 16 then text
  else text.take 15 ++ [0] ++ (List.range' 22 (text.length - 16)).map memory

theorem onto_snprintf_longLong {cur : Cursor UInt8} (h : cur.Tidy) (hpos : cur.pos = 6) (size : Nat) :
    (snprintf cur (longLong size)).onto memory = cur.onto memory ++ sizeText memory size := by
  unfold sizeText snprintf
  dsimp only
  split
  · exact onto_snprintf cur ‹_›
  · rw [onto_snprintf_cut h (by decide) (by omega), hpos]

theorem onto_printIt_eq (gmtime : Gmtime) (self : MlsdFormat) (fli : Listed) (memory : Nat → UInt8) :
    (self.printIt gmtime fli).onto memory
      = (if self.state.isEnabled .size then
          bytes " Size=" ++ sizeText memory fli.st.size ++ bytes "; "
        else [space]) ++ fli.name ++ crlf := by
  cases henabled : self.state.isEnabled .size with
  | true =>
      let label : Cursor UInt8 :=
        ((Cursor.start.memcpy [space]).memcpy (bytes "Size")).memcpy (bytes "=")
      have hlabel : label.Tidy := ((tidy_start.memcpy _).memcpy _).memcpy _
      have hfacts : self.printFacts gmtime fli
          = (snprintf label (longLong fli.st.size)).memcpy ([] ++ [semicolon]) :=
        printFacts_of_size gmtime fli henabled
      have hlast : (self.printFacts gmtime fli).cell ((self.printFacts gmtime fli).pos - 1)
          = some semicolon := by
        rw [hfacts]
        exact cell_memcpy_last _ [] semicolon
      have hsize : (snprintf label (longLong fli.st.size)).onto memory
          = bytes " Size=" ++ sizeText memory fli.st.size := by
        rw [onto_snprintf_longLong hlabel rfl, onto_memcpy, onto_memcpy, onto_memcpy, onto_start]
        rfl
      rw [onto_printIt hlast, if_neg (by decide), hfacts, onto_memcpy, hsize, if_pos rfl]
      simp [bytes, semicolon, space]
  | false =>
      have hfacts : self.printFacts gmtime fli = Cursor.start.memcpy ([] ++ [space]) :=
        printFacts_of_disabled henabled
      have hlast : (self.printFacts gmtime fli).cell ((self.printFacts gmtime fli).pos - 1)
          = some space := by
        rw [hfacts]
        exact cell_memcpy_last _ [] space
      rw [onto_printIt hlast, if_pos rfl, hfacts, onto_memcpy, onto_start, if_neg Bool.false_ne_true]
      simp

section SizeText

variable {memory : Nat → UInt8} {size : Nat}

theorem isLineText_decimal (n : Nat) : IsLineText (decimal n) := fun c hc => by
  have hdigit := isDigit_of_mem_decimal hc
  refine ⟨?_, ?_⟩ <;> rintro rfl <;> exact absurd hdigit (by decide)

theorem isLineText_longLong (n : Nat) : IsLineText (longLong n) := by
  have hsigned (n : Int) : IsLineText (signed n) := by
    unfold signed
    split
    · exact isLineText_decimal _
    · exact isLineText_cons.mpr ⟨by decide, isLineText_decimal _⟩
  exact hsigned _

/-- Up to 16 characters nothing of the memory is seen. -/
theorem isLineText_sizeText (h : (longLong size).length ≤ 16) : IsLineText (sizeText memory size) := by
  unfold sizeText
  dsimp only
  split
  · exact isLineText_longLong size
  · rw [Nat.sub_eq_zero_of_le h, List.range'_zero, List.map_nil, List.append_nil]
    have hcut := (isLineText_longLong size).of_isInfix (List.take_prefix 15 _).isInfix
    exact isLineText_append.mpr ⟨hcut, by decide⟩

/-- From 17 on the last byte is one of the memory. -/
theorem sizeText_of_long (h : 16 < (longLong size).length) :
    ∃ front, sizeText memory size = front ++ [memory ((longLong size).length + 5)] := by
  obtain ⟨more, hmore⟩ : ∃ more, (longLong size).length = 16 + (more + 1) :=
    ⟨(longLong size).length - 17, by omega⟩
  refine ⟨(longLong size).take 15 ++ [0] ++ (List.range' 22 more).map memory, ?_⟩
  unfold sizeText
  dsimp only
  rw [if_neg (by omega), hmore, Nat.add_sub_cancel_left, List.range'_concat, List.map_append,
    ← List.append_assoc, List.map_singleton, Nat.one_mul]
  congr 3
  omega

end SizeText

end MlsdFormat

namespace DirListerMlst

variable {gmtime : Gmtime} {host : Host} {buffer : Bytes} {path : Path} {state : FtpState}

/-- What is left of the line without its CR LF. -/
def mlstText (host : Host) (buffer : Bytes) (path : Path) (state : FtpState) : Bytes :=
  (if state.mdtxState.isEnabled .size then
      bytes " Size=" ++ MlsdFormat.sizeText (fun i => buffer.getD i 0) (host.stat path.ppath).size
        ++ bytes "; "
    else [space]) ++ path.vpath

theorem not_hides (showHidden : Bool) (path : Path) :
    DirLister.hides showHidden path.vpath = false := by
  have hvalid := path.valid
  unfold DirLister.hides
  cases hvpath : path.vpath with
  | nil => rfl
  | cons c rest =>
      have hc : c = slash := by
        by_contra hne
        rw [hvpath, makeValid, if_neg hne] at hvalid
        exact absurd (congrArg List.length hvalid) (by simp)
      rw [hc]
      rfl

/-- **`GetMlstFacts`.** It returns the line without its CR LF, or nothing if the name may not fit into
the buffer. -/
theorem getMlstFacts_eq (gmtime : Gmtime) (host : Host) (buffer : Bytes) (path : Path)
    (state : FtpState) :
    getMlstFacts gmtime host buffer path state
      = .ok (if buffer.length ≤ path.vpath.length + 128 then []
          else mlstText host buffer path state) := by
  let lister : DirLister := make gmtime buffer path state
  have hhides : DirLister.hides lister.showHidden lister.fli.name = false := not_hides false path
  have hsize : lister.formatter.cur
      + lister.formatter.format.calculateSize (lister.current host) = path.vpath.length + 128 :=
    Nat.zero_add _
  by_cases hfull : buffer.length ≤ path.vpath.length + 128
  · have hlist : lister.list host 2 = some (true, lister.stopped host) :=
      DirLister.listLoop_of_full rfl hhides (hsize ▸ hfull)
    rw [getMlstFacts, show (make gmtime buffer path state).list host 2 = _ from hlist, if_pos hfull]
    rfl
  · have hroom : DirLister.listLoop host 2 lister = DirLister.listLoop host 1 (lister.printed host) :=
      DirLister.listLoop_of_room rfl hhides (hsize ▸ Nat.lt_of_not_le hfull)
    have hlist : lister.list host 2 = some (false, lister.printed host) :=
      hroom.trans (DirLister.listLoop_of_not_isMore rfl)
    have hline : (lister.printed host).getBuffer = mlstText host buffer path state ++ crlf := by
      have hput := lister.formatter.put_take (lister.formatter.format.printIt (lister.current host))
        (Nat.zero_le _)
      exact hput.trans (MlsdFormat.onto_printIt_eq gmtime ⟨state.mdtxState⟩ _ _)
    have hlong : 0 < (mlstText host buffer path state).length := by
      unfold mlstText
      split <;> simp [bytes]
    have htake : (mlstText host buffer path state ++ crlf).length - 2
        = (mlstText host buffer path state).length := by simp [crlf]
    rw [getMlstFacts, show (make gmtime buffer path state).list host 2 = _ from hlist, if_neg hfull]
    dsimp only
    rw [hline, if_pos (by rw [List.length_append, crlf]; simpa using hlong), htake, List.take_left]

theorem space_prefix_mlstText : [space] <+: mlstText host buffer path state := by
  unfold mlstText
  split
  · exact ⟨_, rfl⟩
  · exact ⟨_, rfl⟩

theorem isLineText_mlstText (hvpath : IsLineText path.vpath)
    (hsize : state.mdtxState.isEnabled .size = true →
      (longLong (host.stat path.ppath).size).length ≤ 16) :
    IsLineText (mlstText host buffer path state) := by
  unfold mlstText
  split
  · have htext : IsLineText (MlsdFormat.sizeText (fun i => buffer.getD i 0)
        (host.stat path.ppath).size) := MlsdFormat.isLineText_sizeText (hsize ‹_›)
    refine isLineText_append.mpr ⟨isLineText_append.mpr ⟨?_, by decide⟩, hvpath⟩
    exact isLineText_append.mpr ⟨by decide, htext⟩
  · exact isLineText_append.mpr ⟨by decide, hvpath⟩

/-- Behind a size of 17 characters or more the semicolon follows a byte of the buffer. -/
theorem mlstText_of_long (henabled : state.mdtxState.isEnabled .size = true)
    (hlong : 16 < (longLong (host.stat path.ppath).size).length) :
    ∃ front back, mlstText host buffer path state
      = front ++ buffer.getD ((longLong (host.stat path.ppath).size).length + 5) 0
        :: semicolon :: back := by
  let memory (i : Nat) : UInt8 := buffer.getD i 0
  obtain ⟨front, hsize⟩ : ∃ front, MlsdFormat.sizeText memory (host.stat path.ppath).size
      = front ++ [memory ((longLong (host.stat path.ppath).size).length + 5)] :=
    MlsdFormat.sizeText_of_long hlong
  refine ⟨bytes " Size=" ++ front, space :: path.vpath, ?_⟩
  rw [mlstText, if_pos henabled, hsize]
  simp [memory, bytes, semicolon, space]

end DirListerMlst

end Wfde
