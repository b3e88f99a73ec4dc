import Wfde.Ftp.Control
import Wfde.Lib.Masks
import Wfde.Proof.MlsdLines

/-!
# The selection of facts

`OPTS MLST` sets the bit of every fact that it names. `IsEnabled` asks whether the bit is 1, which only
the first of them can be.
-/

namespace Wfde

open Effect FtpSession Masks

/-- One of the tokens of the options is the name of the fact. -/
def Names (param : Bytes) (fact : Facts) : Prop :=
  ∃ token ∈ param.splitOnP fun c => c == 59 || c == space,
    iequals (MdtxState.factName fact) token = true

instance (param : Bytes) (fact : Facts) : Decidable (Names param fact) :=
  inferInstanceAs (Decidable (∃ _ ∈ _, _))

namespace MdtxState

variable {state : MdtxState} {fact : Facts}

def HasBit (state : MdtxState) (fact : Facts) : Prop := state.factBits &&& factBit fact ≠ 0

theorem isEnabled_size : state.isEnabled .size = true ↔ state.HasBit .size := by
  have hbit := and_isBit (by decide : IsBit (factBit .size)) state.factBits
  unfold HasBit isEnabled
  rw [beq_iff_eq]
  constructor
  · intro h
    rw [h]
    decide
  · intro h
    rw [hbit, if_neg h]
    rfl

theorem isEnabled_iff : state.isEnabled fact = true ↔ fact = .size ∧ state.HasBit .size := by
  constructor
  · intro h
    obtain rfl := MlsdFormat.eq_size_of_isEnabled h
    exact ⟨rfl, isEnabled_size.mp h⟩
  · rintro ⟨rfl, h⟩
    exact isEnabled_size.mpr h

theorem factBit_and_factBit (fact other : Facts) :
    factBit fact &&& factBit other ≠ 0 ↔ other = fact := by
  cases fact <;> cases other <;> decide

theorem hasBit_or (other : Facts) :
    HasBit { factBits := state.factBits ||| factBit other } fact
      ↔ state.HasBit fact ∨ other = fact := by
  unfold HasBit
  rw [UInt32.and_comm, and_or, UInt32.and_comm _ state.factBits, ne_eq, UInt32.or_eq_zero_iff, not_and_or,
    ← ne_eq, ← ne_eq, factBit_and_factBit]

theorem hasBit_foldl_facts (name : Bytes) (list : List Facts) :
    (list.foldl
        (fun state fact =>
          if iequals (factName fact) name then { factBits := state.factBits ||| factBit fact }
          else state)
        state).HasBit fact
      ↔ state.HasBit fact ∨ fact ∈ list ∧ iequals (factName fact) name = true := by
  induction list generalizing state with
  | nil => simp
  | cons other list ih =>
      rw [List.foldl_cons, ih, List.mem_cons]
      cases hname : iequals (factName other) name with
      | true =>
          rw [if_pos rfl, hasBit_or]
          grind
      | false =>
          rw [if_neg Bool.false_ne_true]
          grind

theorem hasBit_enable (name : Bytes) :
    (state.enable name).HasBit fact
      ↔ state.HasBit fact ∨ iequals (factName fact) name = true := by
  have hmem : fact ∈ facts := by cases fact <;> decide
  rw [enable, hasBit_foldl_facts]
  simp [hmem]

theorem hasBit_foldl_enable (names : List Bytes) :
    (names.foldl enable state).HasBit fact
      ↔ state.HasBit fact ∨ ∃ name ∈ names, iequals (factName fact) name = true := by
  induction names generalizing state with
  | nil => simp
  | cons name names ih =>
      rw [List.foldl_cons, ih, hasBit_enable, or_assoc, List.exists_mem_cons_iff]

/-- What `OPTS MLST` leaves. -/
def selected (state : MdtxState) (param : Bytes) : MdtxState :=
  (param.splitOnP fun c => c == 59 || c == space).foldl enable state.disableAll

theorem isEnabled_selected {param : Bytes} :
    (state.selected param).isEnabled fact = true ↔ fact = .size ∧ Names param .size := by
  rw [isEnabled_iff, selected, hasBit_foldl_enable]
  have hnone : ¬ state.disableAll.HasBit .size := by simp [HasBit, disableAll]
  simp [hnone, Names]

end MdtxState

def namedFacts (gmtime : Gmtime) (param : Bytes) (fli : Listed) : List (Bytes × Bytes) :=
  (MlsdFormat.printOrder.filter fun fact => Names param fact).map fun fact =>
    (MdtxState.factName fact, MlsdFormat.factValue gmtime fli fact)

/-- What the options should select: the facts they name are enabled, listed in the reply, starred by
FEAT, and with their values all that there is in a line of MLSD in front of the name. -/
structure SelectsExactly (gmtime : Gmtime) (ftp : FtpSession) (param : Bytes) (fli : Listed) :
    Prop where
  enabled : ∀ fact,
    (after (FtpCmdMlst.onOpts param) ftp).state.mdtxState.isEnabled fact = true ↔ Names param fact
  reply : (FtpCmdMlst.onOpts param).run ftp = .ok
    (some
      { code := .ok
        message := (MdtxState.facts.filter fun fact => Names param fact).flatMap fun fact =>
          MdtxState.factName fact ++ bytes ";" })
    (after (FtpCmdMlst.onOpts param) ftp)
  feat : FtpCmdFeat.onCmd.run (after (FtpCmdMlst.onOpts param) ftp) = .ok
    (some
      { code := .statusOk
        message := bytes "Extensions supported:" ++ FtpCmdFeat.features.flatMap fun feature =>
          bytes "\r\n " ++ if feature = bytes "MLST" then
              bytes "MLST " ++ MdtxState.facts.flatMap fun fact =>
                MdtxState.factName fact ++ (if Names param fact then bytes "*" else []) ++ bytes ";"
            else feature
        multiLine := true })
    (after (FtpCmdMlst.onOpts param) ftp)
  mlsd : (MlsdFormat.printIt gmtime
      ⟨(after (FtpCmdMlst.onOpts param) ftp).state.mdtxState⟩ fli).Holds
    (space :: factsText (namedFacts gmtime param fli)
      ++ (if namedFacts gmtime param fli = [] then [] else [space]) ++ fli.name ++ crlf)

section SelectsExactly

variable {gmtime : Gmtime} {ftp : FtpSession} {param : Bytes} {fli : Listed}

theorem run_onOpts (ftp : FtpSession) (param : Bytes) :
    (FtpCmdMlst.onOpts param).run ftp = .ok
      (some
        { code := .ok
          message := (MdtxState.facts.filter (ftp.state.mdtxState.selected param).isEnabled).flatMap
            fun fact => MdtxState.factName fact ++ bytes ";" })
      { ftp with
        state := { ftp.state with mdtxState := ftp.state.mdtxState.selected param } } := rfl

theorem mdtxState_after_onOpts (ftp : FtpSession) (param : Bytes) :
    (after (FtpCmdMlst.onOpts param) ftp).state.mdtxState = ftp.state.mdtxState.selected param := by
  rw [after_of_ok (run_onOpts ftp param)]

theorem run_feat (ftp : FtpSession) :
    FtpCmdFeat.onCmd.run ftp = .ok
      (some
        { code := .statusOk
          message := bytes "Extensions supported:" ++ FtpCmdFeat.features.flatMap fun feature =>
            bytes "\r\n " ++ if feature = bytes "MLST" then
                bytes "MLST " ++ ftp.state.mdtxState.getFactList
              else feature
          multiLine := true })
      ftp := rfl

theorem isEnabled_eq_of_names (state : MdtxState) (h : ∀ fact, Names param fact → fact = .size) :
    (state.selected param).isEnabled = fun fact => decide (Names param fact) := by
  funext fact
  rw [Bool.eq_iff_iff, MdtxState.isEnabled_selected, decide_eq_true_eq]
  constructor
  · rintro ⟨rfl, hnames⟩
    exact hnames
  · intro hnames
    obtain rfl := h fact hnames
    exact ⟨rfl, hnames⟩

theorem enabledFacts_eq_namedFacts (state : MdtxState)
    (h : ∀ fact, Names param fact → fact = .size) :
    MlsdFormat.enabledFacts gmtime ⟨state.selected param⟩ fli = namedFacts gmtime param fli := by
  rw [MlsdFormat.enabledFacts, namedFacts, isEnabled_eq_of_names state h]

end SelectsExactly

/-- **Selection of facts.** The options select exactly what they name if and only if they name nothing
but the size, and its value, if they name it, fits. -/
theorem selectsExactly_iff (gmtime : Gmtime) (ftp : FtpSession) (param : Bytes) (fli : Listed)
    (hsize : fli.st.size < 2 ^ 63) :
    SelectsExactly gmtime ftp param fli
      ↔ (∀ fact, Names param fact → fact = .size) ∧ (Names param .size → fli.st.size < 10 ^ 15) := by
  constructor
  · intro h
    have honly : ∀ fact, Names param fact → fact = .size := fun fact hnames =>
      MlsdFormat.eq_size_of_isEnabled ((h.enabled fact).mpr hnames)
    refine ⟨honly, fun hnames => ?_⟩
    by_contra hlarge
    have henabled : (ftp.state.mdtxState.selected param).isEnabled .size = true :=
      MdtxState.isEnabled_selected.mpr ⟨rfl, hnames⟩
    have hmlsd := h.mlsd
    rw [mdtxState_after_onOpts, ← enabledFacts_eq_namedFacts ftp.state.mdtxState honly,
      MlsdFormat.enabledFacts_eq, henabled, if_pos rfl, if_neg (List.cons_ne_nil _ _)] at hmlsd
    obtain ⟨rest, hcut⟩ := MlsdFormat.cut_of_size henabled hsize (Nat.le_of_not_lt hlarge) hmlsd
    have hline : space :: mlsdLine [(bytes "Size", decimal fli.st.size)] fli.name
        = space :: (bytes "Size=" ++ (decimal fli.st.size).take 15 ++ 0 :: rest) := by
      rw [mlsdLine]
      simpa using hcut
    exact ne_mlsdLine_of_cut (Nat.le_of_not_lt hlarge) rest fli.name (List.cons.inj hline).2.symm
  · rintro ⟨honly, hfits⟩
    have henabled := isEnabled_eq_of_names ftp.state.mdtxState honly
    refine ⟨fun fact => ?_, ?_, ?_, ?_⟩
    · rw [mdtxState_after_onOpts, henabled, decide_eq_true_eq]
    · rw [after_of_ok (run_onOpts ftp param), run_onOpts, henabled]
    · rw [run_feat, mdtxState_after_onOpts, MdtxState.getFactList, henabled]
      simp only [decide_eq_true_eq]
    · rw [mdtxState_after_onOpts, ← enabledFacts_eq_namedFacts ftp.state.mdtxState honly]
      refine MlsdFormat.holds_printIt ⟨fun hsize => hfits ?_, fun hmodify => ?_⟩
      · exact (MdtxState.isEnabled_selected.mp hsize).2
      · exact absurd (MlsdFormat.eq_size_of_isEnabled hmodify) (by decide)

def newcomer : FtpSession :=
  .fresh .empty
    { files := { node := fun _ => none, refuses := fun _ _ => false }, performed := [] } 4096

theorem selectsExactly_iff_newcomer :
    SelectsExactly epoch newcomer (bytes "Size;") (plainFile 5)
      ↔ (∀ fact, Names (bytes "Size;") fact → fact = .size)
        ∧ (Names (bytes "Size;") .size → (plainFile 5).st.size < 10 ^ 15) :=
  selectsExactly_iff epoch newcomer (bytes "Size;") (plainFile 5) (by decide)

/-- `OPTS MLST Type;Size;` selects the size only. -/
theorem not_selectsExactly_type : ¬ SelectsExactly epoch newcomer (bytes "Type;Size;") (plainFile 5) := by
  intro h
  have hnames : Names (bytes "Type;Size;") .type := by decide +kernel
  exact absurd (MlsdFormat.eq_size_of_isEnabled ((h.enabled .type).mpr hnames)) (by decide)

end Wfde
