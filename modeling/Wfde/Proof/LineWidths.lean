import Wfde.Proof.LsLines
import Wfde.Proof.MlsdLines

/-!
# The space reserved for a listing line

`CalculateSize` adds a constant to the length of the name. The fields of a line are bounded one by
one, and their sum is at most the constant.
-/

namespace Wfde

section Numbers

theorem length_signed_le {n : Int} {k : Nat} (hk : 0 < k) (h : n.natAbs < 10 ^ k) :
    (signed n).length ≤ k + 1 := by
  unfold signed
  split
  · have hnat : n.toNat < 10 ^ k := by omega
    have hdigits := (length_decimal_le hk).mpr hnat
    omega
  · have hdigits := (length_decimal_le hk).mpr h
    rw [List.length_cons]
    omega

theorem length_longLong_le {n : Nat} (h : n < 2 ^ 64) : (longLong n).length ≤ 20 := by
  refine length_signed_le (by decide) ?_
  split <;> omega

theorem length_hex_le {n k : Nat} (hk : 0 < k) : (hex n).length ≤ k ↔ n < 16 ^ k := by
  rw [hex, List.length_map]
  exact Nat.length_toDigits_le_iff (by decide) hk

end Numbers

/-- `tm_year` is an `int`. -/
def IntYears (gmtime : Gmtime) : Prop :=
  ∀ time tm, gmtime time = some tm → -2 ^ 31 ≤ tm.year ∧ tm.year < 2 ^ 31

theorem IntYears.tm {gmtime : Gmtime} (h : IntYears gmtime) (time : Int) :
    -2 ^ 31 ≤ (gmtime.tm time).year ∧ (gmtime.tm time).year < 2 ^ 31 := by
  unfold Gmtime.tm
  cases hgmtime : gmtime time with
  | none => decide
  | some tm => exact h time tm hgmtime

namespace LsLongFormat

theorem length_yearText_le {tm : Tm} (hyear : -2 ^ 31 ≤ tm.year ∧ tm.year < 2 ^ 31) :
    (yearText tm).length ≤ 17 := by
  have hday : (decimal tm.mday).length ≤ 2 := (length_decimal_le (by decide)).mpr (by omega)
  have hdigits : (signed (tm.year + 1900)).length ≤ 11 := length_signed_le (by decide) (by omega)
  simp only [yearText, List.length_append, length_padLeft, List.length_cons, List.length_nil]
  omega

theorem length_month (mon : Fin 12) : (months.getD mon []).length = 3 := by
  revert mon
  decide

variable {gmtime : Gmtime} {self : LsLongFormat} {entry : Entry}

theorem length_sizeField_le (hsize : entry.st.size < 2 ^ 64) :
    (padLeft space 8 (longLong entry.st.size) ++ [space]).length ≤ 21 := by
  have hlength := length_longLong_le hsize
  rw [List.length_append, length_padLeft, List.length_singleton]
  omega

theorem length_dateText_le (hgmtime : IntYears gmtime) :
    (dateText self entry (gmtime.tm entry.st.mtime)).length ≤ 17 := by
  unfold dateText
  split
  · exact (length_timeText _).le.trans (by decide)
  · exact length_yearText_le (hgmtime.tm _)

theorem tidy_printSize (entry : Entry) : (printSize entry).Tidy := by
  unfold printSize
  split
  · exact (Cursor.tidy_start.memcpy _).snprintf _ _ _
  · exact (Cursor.tidy_start.memcpy _).memcpy _

theorem pos_printSize_le (hsize : entry.st.size < 2 ^ 64) : (printSize entry).pos ≤ 42 := by
  have hbsString : (bsString entry).length = 21 := by
    unfold bsString
    split <;> rfl
  have hfield := length_sizeField_le hsize
  unfold printSize
  split
  · change 0 + (bsString entry).length + _ ≤ 42
    omega
  · change 0 + (bsString entry).length + 9 ≤ 42
    omega

/-- 21 bytes for the type and the owner, 21 for the size, 3 for the month and 17 for the date. -/
theorem within_printIt (hgmtime : IntYears gmtime) (hsize : entry.st.size < 2 ^ 64) :
    (self.printIt gmtime entry).Within (calculateSize entry) := by
  have hfront := pos_printSize_le hsize
  have hmonth := length_month (gmtime.tm entry.st.mtime).mon
  have hdate : (dateText self entry (gmtime.tm entry.st.mtime)).length ≤ 17 :=
    length_dateText_le hgmtime
  rw [printIt_tm]
  refine Cursor.Tidy.within_memcpy ?_ (by simp) ?_
  · exact ((((tidy_printSize entry).memcpy _).snprintf _ _ _).memcpy _).memcpy _
  · simp only [snprintf, Cursor.pos_memcpy, Cursor.pos_snprintf, List.length_singleton,
      calculateSize, hmonth]
    omega

end LsLongFormat

theorem within_nlst (entry : Entry) :
    (nlstCursorFormat.printIt entry).Within (nlstCursorFormat.calculateSize entry) := by
  refine Cursor.Tidy.within_memcpy ?_ (by simp) ?_
  · exact (Cursor.tidy_start.memcpy _).memcpy _
  · simp [Cursor.start, nlstCursorFormat, nlstFormat]

namespace MlsdFormat

variable {gmtime : Gmtime} {self : MlsdFormat} {fli : Listed} {cur : Cursor UInt8}

theorem length_typeFact_le (fli : Listed) : (typeFact fli).length ≤ 4 := by
  unfold typeFact
  split_ifs <;> decide

theorem length_letters_le {table : List (Bool × String)}
    (h : ∀ letter ∈ table, (bytes letter.2).length = 1) : (letters table).length ≤ table.length := by
  induction table with
  | nil => exact le_rfl
  | cons letter table ih =>
      have hrest := ih fun other hother => h other (by simp [hother])
      have hletter := h letter (by simp)
      rw [letters] at hrest ⊢
      rw [List.filter_cons]
      split
      · rw [List.flatMap_cons, List.length_append, hletter, List.length_cons]
        omega
      · exact hrest.trans (Nat.le_succ _)

theorem length_permFact_le (fli : Listed) : (permFact fli).length ≤ 6 := by
  unfold permFact
  split
  · rename_i path hpath
    have hrename : (letters [(path.canRename, "f")]).length ≤ 1 :=
      length_letters_le (by simp [bytes])
    rw [List.length_append]
    split
    · have hdir : (letters [(path.canCreateFile, "c"), (path.canDeleteDir, "d"), (path.canEnter, "e"),
          (path.canCreateDir, "m"), (path.canDeleteFile || path.canDeleteDir, "p")]).length ≤ 5 :=
        length_letters_le (by simp [bytes])
      omega
    · have hfile : (letters [(path.canWrite, "a"), (path.canDeleteFile, "d"), (path.canRead, "r"),
          (path.canWrite, "w")]).length ≤ 4 :=
        length_letters_le (by simp [bytes])
      omega
  · decide

/-- The unique fact of a path; without a path it would be the name. -/
theorem length_getUniqueFact_le (hpath : fli.path.isSome = true) :
    fli.getUniqueFact.length ≤ 25 := by
  have hdev : (hex (fli.st.dev % 2 ^ 32)).length ≤ 8 :=
    (length_hex_le (by decide)).mpr (Nat.mod_lt _ (by decide))
  have hino : (hex (fli.st.ino % 2 ^ 64)).length ≤ 16 :=
    (length_hex_le (by decide)).mpr (Nat.mod_lt _ (by decide))
  have hnone : ¬ fli.path.isNone = true := by
    rw [Option.isNone_iff_eq_none]
    exact Option.isSome_iff_ne_none.mp hpath
  have hcolon : (bytes ":").length = 1 := rfl
  rw [Listed.getUniqueFact, if_neg hnone, List.length_append, List.length_append]
  omega

theorem tidy_printFact (h : cur.Tidy) (fact : Facts) {value : Cursor UInt8 → Cursor UInt8}
    (hvalue : ∀ cur : Cursor UInt8, cur.Tidy → (value cur).Tidy) :
    (self.printFact fact value cur).Tidy := by
  unfold printFact
  split
  · exact (hvalue _ ((h.memcpy _).memcpy _)).memcpy _
  · exact h

/-- The name, the sign and the semicolon are around the value. -/
theorem advances_printFact {fact : Facts} {value : Cursor UInt8 → Cursor UInt8} {width total : Nat}
    (hvalue : self.state.isEnabled fact = true → Cursor.Advances value width)
    (htotal : (MdtxState.factName fact).length + width + 2 = total) :
    Cursor.Advances (self.printFact fact value) total := by
  intro cur
  unfold printFact
  split
  · rename_i henabled
    have hmoved := hvalue henabled ((cur.memcpy (MdtxState.factName fact)).memcpy (bytes "="))
    have hsign : (bytes "=").length = 1 := rfl
    have hend : (bytes ";").length = 1 := rfl
    simp only [Cursor.pos_memcpy, hsign, hend] at hmoved ⊢
    omega
  · omega

theorem tidy_printFacts (gmtime : Gmtime) (self : MlsdFormat) (fli : Listed) :
    (self.printFacts gmtime fli).Tidy := by
  have hspace : (Cursor.start.memcpy [space]).Tidy := Cursor.tidy_start.memcpy _
  unfold printFacts
  refine tidy_printFact (tidy_printFact (tidy_printFact (tidy_printFact (tidy_printFact hspace _
    fun _ h => h.memcpy _) _ fun _ h => ?_) _ fun _ h => h.snprintf _ _ _) _
    fun _ h => h.memcpy _) _ fun _ h => h.memcpy _
  unfold printTimeval strftime
  dsimp only
  split
  · exact h.snprintf _ _ _
  · exact h

theorem advances_printTimeval (gmtime : Gmtime) (time : Int) :
    Cursor.Advances (printTimeval gmtime time) 15 := by
  intro cur
  unfold printTimeval strftime
  dsimp only
  split
  · rw [Cursor.pos_snprintf]
    omega
  · omega

/-- A space and the five facts. Where there is no path, the unique fact would be the name again; but of
the facts the size alone is ever enabled. -/
theorem pos_printFacts_le (hsize : fli.st.size < 2 ^ 64) :
    (self.printFacts gmtime fli).pos ≤ 105 := by
  have htype : Cursor.Advances (self.printFact .type fun cur => cur.memcpy (typeFact fli)) 10 :=
    advances_printFact (fun _ => Cursor.advances_memcpy (length_typeFact_le fli)) rfl
  have hmodify : Cursor.Advances (self.printFact .modify (printTimeval gmtime fli.st.mtime)) 23 :=
    advances_printFact (fun _ => advances_printTimeval gmtime _) rfl
  have hsizeFact : Cursor.Advances
      (self.printFact .size fun cur => snprintf cur (longLong fli.st.size)) 26 :=
    advances_printFact (fun _ cur => Nat.add_le_add_left (length_longLong_le hsize) _) rfl
  have hunique : Cursor.Advances (self.printFact .unique fun cur => cur.memcpy fli.getUniqueFact) 33 := by
    refine advances_printFact (fun henabled => (?_ : Cursor.Advances _ 25)) rfl
    cases hpath : fli.path.isSome with
    | true => exact Cursor.advances_memcpy (length_getUniqueFact_le hpath)
    | false => exact absurd (eq_size_of_isEnabled henabled) (by decide)
  have hperm : Cursor.Advances (self.printFact .perm fun cur => cur.memcpy (permFact fli)) 12 :=
    advances_printFact (fun _ => Cursor.advances_memcpy (length_permFact_le fli)) rfl
  exact hperm.comp (hunique.comp (hsizeFact.comp (hmodify.comp htype))) (Cursor.start.memcpy [space])

/-- A space in front of the name and the line break make 108 bytes with the facts. -/
theorem within_printIt (hsize : fli.st.size < 2 ^ 64) :
    (self.printIt gmtime fli).Within (calculateSize fli) := by
  have hfacts : (self.printFacts gmtime fli).pos ≤ 105 := pos_printFacts_le hsize
  have htidy := tidy_printFacts gmtime self fli
  rw [printIt_eq]
  dsimp only
  split
  · refine Cursor.Tidy.within_memcpy ((((htidy.memcpy _).memcpy _).memcpy _)) (by simp) ?_
    simp only [Cursor.pos_memcpy, List.length_singleton, calculateSize]
    omega
  · refine Cursor.Tidy.within_memcpy ((htidy.memcpy _).memcpy _) (by simp) ?_
    simp only [Cursor.pos_memcpy, List.length_singleton, calculateSize]
    omega

end MlsdFormat

/-- What the format prints of an entry stays in what it reserves for it. -/
def CursorFormat.Fits {ε : Type*} (format : CursorFormat ε) (fli : ε) : Prop :=
  (format.printIt fli).Within (format.calculateSize fli)

namespace RawFormatter

variable {ε : Type*} {format : CursorFormat ε} {formatter : RawFormatter}

/-- The pointer is in the buffer, and what is behind the buffer has not changed. -/
structure Inside (before after : RawFormatter) : Prop where
  size_eq : after.size = before.size
  cur_le : after.cur ≤ after.size
  memory_eq : ∀ i, before.size ≤ i → after.memory i = before.memory i

theorem print_inside {before : RawFormatter} (h : Inside before formatter) {fli : ε}
    (hfits : format.Fits fli) : Inside before (print format formatter fli) := by
  unfold print
  split
  · exact ⟨h.size_eq, Nat.zero_le _, h.memory_eq⟩
  · rename_i hroom
    have hpos := hfits.pos_le
    have hsize := h.size_eq
    refine ⟨h.size_eq, by simp only; omega, fun i hi => ?_⟩
    have hunwritten := hfits.cell_eq_none (i - formatter.cur) (by omega)
    have hbehind : ¬ i < formatter.cur := by omega
    simp only [if_neg hbehind, hunwritten, Option.getD_none]
    exact h.memory_eq i hi

theorem prints_inside {before : RawFormatter} (h : Inside before formatter) {entries : List ε}
    (hfits : ∀ fli ∈ entries, format.Fits fli) :
    Inside before (entries.foldl (print format) formatter) := by
  induction entries generalizing formatter with
  | nil => exact h
  | cons fli entries ih =>
      exact ih (print_inside h (hfits fli (by simp))) fun other hother =>
        hfits other (by simp [hother])

end RawFormatter

open RawFormatter

/-- **Every listing line fits the space reserved for it, and whatever a formatter prints stays in its
buffer.** -/
theorem listing_lines_fit {gmtime : Gmtime} (hgmtime : IntYears gmtime) (ls : LsLongFormat)
    (mlsd : MlsdFormat) {formatter : RawFormatter} (hcur : formatter.cur ≤ formatter.size)
    (entries : List Entry) (hentries : ∀ entry ∈ entries, entry.st.size < 2 ^ 64)
    (listed : List Listed) (hlisted : ∀ fli ∈ listed, fli.st.size < 2 ^ 64) :
    (∀ entry ∈ entries, (ls.cursorFormat gmtime).Fits entry)
      ∧ (∀ entry ∈ entries, nlstCursorFormat.Fits entry)
      ∧ (∀ fli ∈ listed, (mlsd.cursorFormat gmtime).Fits fli)
      ∧ Inside formatter (entries.foldl (print (ls.cursorFormat gmtime)) formatter)
      ∧ Inside formatter (entries.foldl (print nlstCursorFormat) formatter)
      ∧ Inside formatter (listed.foldl (print (mlsd.cursorFormat gmtime)) formatter) := by
  have hls : ∀ entry ∈ entries, (ls.cursorFormat gmtime).Fits entry := fun entry hentry =>
    LsLongFormat.within_printIt hgmtime (hentries entry hentry)
  have hmlsd : ∀ fli ∈ listed, (mlsd.cursorFormat gmtime).Fits fli := fun fli hfli =>
    MlsdFormat.within_printIt (hlisted fli hfli)
  have hstart : Inside formatter formatter := ⟨rfl, hcur, fun _ _ => rfl⟩
  exact ⟨hls, fun entry _ => within_nlst entry, hmlsd, prints_inside hstart hls,
    prints_inside hstart fun entry _ => within_nlst entry, prints_inside hstart hmlsd⟩

/-- The size is printed as a number of nineteen digits with a sign. -/
theorem listing_lines_fit_largest :
    let entry : Entry := ⟨bytes "a", { size := 2 ^ 63 }⟩
    let path := Path.make [slash] [bytes "a"] (Path.toPermBits [.canRead])
    ((LsLongFormat.make 0).cursorFormat fun _ => some midnight).Fits entry
      ∧ nlstCursorFormat.Fits entry
      ∧ (({ state := {} } : MlsdFormat).cursorFormat fun _ => some midnight).Fits
        (Listed.ofPath path entry) := by
  intro entry path
  have hgmtime : IntYears fun _ => some midnight := by
    rintro time tm ⟨⟩
    decide
  obtain ⟨hls, hnlst, hmlsd, -⟩ := listing_lines_fit hgmtime (.make 0) { state := {} }
    (show (RawFormatter.mk (fun _ => 0) 16384 0).cur ≤ 16384 by decide) [entry] (by simp [entry])
    [Listed.ofPath path entry] (by simp [Listed.ofPath, entry])
  exact ⟨hls _ (by simp), hnlst _ (by simp), hmlsd _ (by simp)⟩

end Wfde
