import Wfde.Proof.AsciiText
import Wfde.Proof.Reading
import Wfde.Proof.TransferPhases
import Wfde.Proof.Turns

/-!
# Outgoing transfers

`SendFile` on all that a transfer can send: a file or a listing, as it is or in ASCII type. What has
been sent, what is being sent and what the calls of `Read` will return make up the whole, and every
turn of the coroutine brings its end nearer.
-/

namespace Wfde

open Effect FtpSession

variable {disk : Disk} {source : Option PPath}

/-- All that the calls of `Read` return from here on, and the path they read at if it is a file. -/
inductive RawFile.HasLeft (disk : Disk) : Option PPath → RawFile → Bytes → Prop
  | mapped {file : WfdeFile} {content : Bytes} (hreading : WfdeFile.Reading file disk content) :
      HasLeft disk (some file.path) (.mapped file) (content.drop file.pos)
  | listing (buffers : List Bytes) : HasLeft disk none (.listing buffers false) buffers.flatten
  | listed : HasLeft disk none (.listing [] true) []

namespace RawFile

variable {file : RawFile} {rest : Bytes}

/-- A listing comes to its end with the last buffer. -/
theorem hasLeft_tail (buffers : List Bytes) :
    HasLeft disk none (.listing buffers (buffers == [])) buffers.flatten := by
  cases buffers with
  | nil => exact .listed
  | cons buffer buffers => exact .listing _

theorem readsLeft_tail (buffers : List Bytes) :
    (RawFile.listing buffers.tail (buffers.tail == [])).readsLeft
      < (RawFile.listing buffers false).readsLeft := by
  cases buffers with
  | nil => exact Nat.one_pos
  | cons buffer buffers =>
      change (if (buffers == []) = true then 0 else buffers.length + 1) < buffers.length + 1 + 1
      split
      · exact Nat.succ_pos _
      · exact Nat.lt_succ_self _

theorem HasLeft.eq_nil (h : HasLeft disk source file rest) (heof : file.isEof = true) : rest = [] := by
  cases h with
  | @mapped file content hreading =>
      have hpos : file.pos = content.length := by
        rw [← hreading.fileSize]
        exact beq_iff_eq.mp heof
      rw [hpos, List.drop_length]
  | listing buffers => cases heof
  | listed => rfl

/-- **`Read`** returns the next part of it. -/
theorem HasLeft.read (h : HasLeft disk source file rest) (hmore : ¬ file.isEof = true) :
    ∃ buffer next rest', (file.read 0).run disk = .ok (buffer, next) disk
      ∧ HasLeft disk source next rest' ∧ buffer ++ rest' = rest ∧ next.readsLeft < file.readsLeft := by
  cases h with
  | @mapped file content hreading =>
      have hne : file.pos ≠ content.length := by
        rw [← hreading.fileSize]
        exact fun heq => hmore (beq_iff_eq.mpr heq)
      have hlt : file.pos < content.length := lt_of_le_of_ne hreading.pos hne
      obtain ⟨result, hrun, hregion, hnext, hpos, hbytes, -⟩ := hreading.readNext hlt
      have hmoved : 0 < result.bytes.length := List.length_pos_of_ne_nil hregion.nonempty
      have hpath : result.file.path = file.path := by
        have hrun' : file.readNext.run disk = .ok ⟨_, _, file.moved 0⟩ disk :=
          bind_eq_ok.mpr ⟨_, _, WfdeFile.getBufferValues_run 0 hreading.mapped disk, rfl⟩
        obtain ⟨rfl, -⟩ := EStateM.Result.ok.inj (hrun.symm.trans hrun')
        rfl
      rw [← hpath]
      refine ⟨result.bytes, .mapped result.file, _, ?_, .mapped hnext, hbytes, ?_⟩
      · have hread : (file.read 0).run disk = .ok (result.bytes, result.file) disk := by
          rw [WfdeFile.read_eq_readNext]
          exact bind_eq_ok.mpr ⟨result, disk, hrun, rfl⟩
        exact bind_eq_ok.mpr ⟨_, _, hread, rfl⟩
      · have hsize : result.file.fileSize = file.fileSize := by
          rw [hnext.fileSize, hreading.fileSize]
        change result.file.fileSize - result.file.pos < file.fileSize - file.pos
        rw [hsize, hreading.fileSize]
        omega
  | listing buffers =>
      refine ⟨buffers.headD [], _, buffers.tail.flatten, rfl, hasLeft_tail buffers.tail, ?_, ?_⟩
      · cases buffers with
        | nil => rfl
        | cons buffer buffers => rfl
      · exact readsLeft_tail buffers
  | listed => exact absurd rfl hmore

end RawFile

namespace File

variable {file : File} {rest : Bytes}

/-- What a file makes of the bytes that it wraps. -/
def onWire (text : Bytes) : File → Bytes
  | raw _ => text
  | ascii _ _ => toWire text

def HasLeft (disk : Disk) (source : Option PPath) (file : File) (rest : Bytes) : Prop :=
  ∃ text, file.inner.HasLeft disk source text ∧ file.onWire text = rest

theorem HasLeft.eq_nil (h : HasLeft disk source file rest) (heof : file.isEof = true) : rest = [] := by
  obtain ⟨text, hleft, rfl⟩ := h
  rw [hleft.eq_nil heof]
  cases file with
  | raw file => rfl
  | ascii file buffer => rfl

theorem HasLeft.read (h : HasLeft disk source file rest) (hmore : ¬ file.isEof = true) :
    ∃ buffer next rest', (file.read 0).run disk = .ok (buffer, next) disk
      ∧ HasLeft disk source next rest' ∧ buffer ++ rest' = rest
      ∧ next.inner.readsLeft < file.inner.readsLeft := by
  obtain ⟨text, hleft, rfl⟩ := h
  obtain ⟨buffer, next, text', hread, hnext, hbytes, hless⟩ := hleft.read hmore
  cases file with
  | raw file =>
      exact ⟨buffer, .raw next, text', bind_eq_ok.mpr ⟨_, _, hread, rfl⟩, ⟨text', hnext, rfl⟩,
        hbytes, hless⟩
  | ascii file memory =>
      refine ⟨toWire buffer, .ascii next (toWire buffer), toWire text',
        bind_eq_ok.mpr ⟨_, _, hread, rfl⟩, ⟨text', hnext, rfl⟩, ?_, hless⟩
      calc
        toWire buffer ++ toWire text' = toWire (buffer ++ text') := List.flatMap_append.symm
        _ = toWire text := by rw [hbytes]

theorem HasLeft.eq_nil_of_readsLeft (h : HasLeft disk source file rest)
    (hnone : file.inner.readsLeft = 0) : rest = [] := by
  by_cases heof : file.isEof = true
  · exact h.eq_nil heof
  · obtain ⟨_, _, _, _, _, _, hless⟩ := h.read heof
    omega

end File

namespace FtpSession

section Calls

variable {ftp : FtpSession} {file : File} {rest : Bytes}

/-- What the search for a buffer that holds something comes to. -/
inductive NextBuffer (source : Option PPath) (ftp : FtpSession) (reads : Nat) (rest : Bytes) :
    Option Bytes → FtpSession → Prop
  | found {next : File} {buffer rest' : Bytes} (hleft : next.HasLeft ftp.disk source rest')
      (hbytes : buffer ++ rest' = rest) (hless : next.inner.readsLeft < reads) :
      NextBuffer source ftp reads rest (some buffer) { ftp with currentFile := some next }
  | exhausted {left : FtpSession} (hend : rest = []) (hfiles : Files ftp left) :
      NextBuffer source ftp reads rest none left

theorem nextBuffer_run {reads : Nat} (hfile : ftp.currentFile = some file)
    (h : file.HasLeft ftp.disk source rest) (hreads : file.inner.readsLeft ≤ reads) :
    ∃ found left, (nextBuffer reads).run ftp = .ok found left
      ∧ NextBuffer source ftp file.inner.readsLeft rest found left := by
  induction reads generalizing ftp file rest with
  | zero =>
      exact ⟨none, ftp, rfl, .exhausted (h.eq_nil_of_readsLeft (Nat.le_zero.mp hreads))
        (Std.Refl.refl ftp)⟩
  | succ reads ih =>
      have hget : (nextBuffer (reads + 1)).run ftp
          = (if file.isEof then return none
            else do
              let buffer ← withFile (·.read 0)
              if buffer.isEmpty then nextBuffer reads else return some buffer).run ftp := by
        rw [nextBuffer, run_bind_of_ok (EStateM.run_get ftp), hfile]
      rw [hget]
      by_cases heof : file.isEof = true
      · rw [if_pos heof]
        exact ⟨none, ftp, rfl, .exhausted (h.eq_nil heof) (Std.Refl.refl ftp)⟩
      · obtain ⟨buffer, next, rest', hread, hnext, hbytes, hless⟩ := h.read heof
        rw [if_neg heof, run_bind_of_ok (withFile_run hfile hread)]
        by_cases hempty : buffer.isEmpty = true
        · rw [if_pos hempty]
          rw [List.isEmpty_iff.mp hempty, List.nil_append] at hbytes
          let read : FtpSession := { ftp with currentFile := some next }
          have hcurrent : read.currentFile = some next := rfl
          obtain ⟨found, left, hrun, hfound⟩ := ih hcurrent hnext (by omega)
          refine ⟨found, left, hrun, ?_⟩
          rw [hbytes] at hfound
          cases hfound with
          | found hleft hbytes hlast => exact .found hleft hbytes (hlast.trans hless)
          | exhausted hend hfiles =>
              have hmoved : Files ftp read := rfl
              exact .exhausted hend (IsTrans.trans _ _ _ hmoved hfiles)
        · rw [if_neg hempty]
          exact ⟨some buffer, _, rfl, .found hnext hbytes hless⟩

/-- Where the send loop waits: to write the next buffer, or to shut the connection down. -/
inductive SendLoop (source : Option PPath) (ftp : FtpSession) (file : File) (rest : Bytes) :
    FtpSession → Prop
  | sends {next : File} {buffer rest' : Bytes} (hleft : next.HasLeft ftp.disk source rest')
      (hbytes : buffer ++ rest' = rest) (hless : next.inner.readsLeft < file.inner.readsLeft) :
      SendLoop source ftp file rest
        { ftp with currentFile := some next, transferFile := some (.sending buffer) }
  | ends {left : FtpSession} (hend : rest = []) (hfiles : Files ftp left) :
      SendLoop source ftp file rest { left with transferFile := some (.shuttingDown .outgoing) }

/-- **The send loop** comes to the next buffer with fewer reads left, or to the end. -/
theorem sendLoop_run (hfile : ftp.currentFile = some file)
    (h : file.HasLeft ftp.disk source rest) :
    ∃ left, sendLoop.run ftp = .ok () left ∧ SendLoop source ftp file rest left := by
  obtain ⟨found, left, hnext, hfound⟩ := nextBuffer_run hfile h le_rfl
  rw [sendLoop, run_bind_of_ok (EStateM.run_get ftp), hfile]
  cases hfound with
  | found hmore hread hless =>
      exact ⟨_, run_bind_of_ok hnext, .sends hmore hread hless⟩
  | exhausted hend hfiles =>
      exact ⟨_, run_bind_of_ok hnext, .ends hend hfiles⟩

end Calls

section Stages

variable {whole buffer : Bytes} {slack turns : Nat} {ftp : FtpSession}

/-- What has been sent, what is being sent and what is still to be read make up the whole. As many
turns as there are reads left, and some more, are enough. -/
def Remaining (source : Option PPath) (whole buffer : Bytes) (slack turns : Nat) (ftp : FtpSession) :
    Prop :=
  ∃ file rest, ftp.currentFile = some file ∧ file.HasLeft ftp.disk source rest
    ∧ ftp.sent ++ buffer ++ rest = whole ∧ file.inner.readsLeft + slack ≤ turns

/-- A transfer that sends the whole, unless it fails, and ends within so many turns. -/
def serving (source : Option PPath) (whole : Bytes) (turns : Nat) : Course where
  transfer := .outgoing
  before count := Remaining source whole [] (count + 4) turns
  moving
    | .sending buffer => Remaining source whole buffer 4 turns
    | .shuttingDown transfer => fun ftp => transfer = .outgoing ∧ ftp.sent = whole ∧ 3 ≤ turns
    | _ => fun _ => False
  behind count ftp := ftp.sent <+: whole ∧ count ≤ turns
  ended ftp := ftp.sent <+: whole

theorem Remaining.weaken {slack' turns' : Nat} (h : Remaining source whole buffer slack turns ftp)
    (hle : slack' + turns ≤ slack + turns') : Remaining source whole buffer slack' turns' ftp := by
  obtain ⟨file, rest, hfile, hleft, hbytes, hturns⟩ := h
  exact ⟨file, rest, hfile, hleft, hbytes, by omega⟩

theorem Remaining.le (h : Remaining source whole buffer slack turns ftp) : slack ≤ turns := by
  obtain ⟨_, _, -, -, -, hturns⟩ := h
  omega

theorem Remaining.part (h : Remaining source whole buffer slack turns ftp) :
    ftp.sent <+: whole := by
  obtain ⟨file, rest, -, -, hbytes, -⟩ := h
  exact ⟨buffer ++ rest, by rw [← hbytes, List.append_assoc]⟩

theorem Remaining.of_cargo {left : FtpSession} (h : Remaining source whole buffer slack turns ftp)
    (hcargo : left.cargo = ftp.cargo) : Remaining source whole buffer slack turns left := by
  have hfile : left.currentFile = ftp.currentFile := congrArg Cargo.currentFile hcargo
  have hdisk : left.disk = ftp.disk := congrArg Cargo.disk hcargo
  have hsent : left.sent = ftp.sent := sent_of_cargo hcargo
  obtain ⟨file, rest, hcurrent, hleft, hbytes, hturns⟩ := h
  exact ⟨file, rest, hfile.trans hcurrent, by rwa [hdisk], by rwa [hsent], hturns⟩

theorem sound_serving (source : Option PPath) (whole : Bytes) (turns : Nat) :
    (serving source whole turns).Sound where
  before h hcargo := h.of_cargo hcargo
  moving {phase _ _} h hcargo := by
    cases phase with
    | sending buffer => exact Remaining.of_cargo h hcargo
    | shuttingDown transfer => exact ⟨h.1, (sent_of_cargo hcargo).trans h.2.1, h.2.2⟩
    | _ => exact h.elim
  behind h hcargo := ⟨(sent_of_cargo hcargo).symm ▸ h.1, h.2⟩
  ended {_ left} h hcargo := by
    change left.sent <+: whole
    rwa [sent_of_cargo hcargo]
  gone {_ _ left} h hgone := by
    change left.sent <+: whole
    rw [hgone.sent]
    exact h.1

theorem serving_sendLoop (htransfer : ftp.state.transfer = .outgoing)
    (h : Remaining source whole [] 3 turns ftp) :
    (serving source whole turns).At (after (tryFile sendLoop) ftp) := by
  obtain ⟨file, rest, hfile, hleft, hbytes, hturns⟩ := h
  obtain ⟨left, hrun, hloop⟩ := sendLoop_run hfile hleft
  rw [List.append_nil] at hbytes
  rw [tryFile, after_of_ok (tryCatch_of_ok hrun)]
  cases hloop with
  | @sends next buffer rest' hmore hread hless =>
      refine ⟨fun _ => htransfer, next, rest', rfl, hmore, ?_, ?_⟩
      · calc
          ftp.sent ++ buffer ++ rest' = ftp.sent ++ (buffer ++ rest') := List.append_assoc _ _ _
          _ = ftp.sent ++ rest := by rw [hread]
          _ = whole := hbytes
      · omega
  | @ends left hend hfiles =>
      rw [hend, List.append_nil] at hbytes
      have hstate : left.state = ftp.state := by rw [hfiles]
      refine ⟨fun _ => ?_, rfl, (sent_of_files hfiles).trans hbytes, by omega⟩
      change left.state.transfer = .outgoing
      rw [hstate, htransfer]

theorem leads_serving (source : Option PPath) (whole : Bytes) (turns : Nat) :
    Course.Leads (serving source whole turns) (serving source whole (turns - 1)) where
  transfer := rfl
  waits h hless := h.weaken (by omega)
  enters {count ftp} h htransfer := by
    have houtgoing : ftp.state.transfer = .outgoing := htransfer
    have hturns := h.le
    rw [after_transferData_eq]
    split
    · exact serving_sendLoop houtgoing (h.weaken (by omega))
    · exact Course.at_notifyFailed (sound_serving _ _ _) htransfer ⟨h.part, by omega⟩
  fails h := by
    have hturns := h.le
    exact ⟨h.part, by omega⟩
  replies h := ⟨h.1, Nat.le_sub_one_of_lt h.2⟩
  ended h := h

/-- **A turn of the transfer coroutine.** -/
theorem serving_resume (h : (serving source whole turns).At ftp) (env : Env) (answer : Answer) :
    (serving source whole (turns - 1)).At (after (resume env answer) ftp) := by
  refine h.turn (sound_serving _ _ _) (sound_serving _ _ _) (leads_serving _ _ _) env answer
    fun phase hphase htransfer hat => ?_
  have houtgoing : ftp.state.transfer = .outgoing := htransfer
  cases phase with
  | sending buffer =>
      have hremaining : Remaining source whole buffer 4 turns ftp := hat
      obtain ⟨file, rest, hfile, hleft, hbytes, hreads⟩ := hat
      let moved : FtpSession := { ftp with sent := ftp.sent ++ buffer }
      have hmoved : Remaining source whole [] 3 (turns - 1) moved :=
        ⟨file, rest, hfile, hleft, by rwa [List.append_nil], by omega⟩
      rw [resume_sending hphase]
      split
      · split
        · have hpart : (serving source whole (turns - 1)).behind 0 moved :=
            ⟨hmoved.part, Nat.zero_le _⟩
          exact Course.at_ended (sound_serving _ _ _) hpart true
        · have hmoving : moved.state.transfer = .outgoing := houtgoing
          exact serving_sendLoop hmoving hmoved
      · exact Course.at_notifyFailed (sound_serving _ _ _) htransfer ⟨hremaining.part, by omega⟩
  | shuttingDown transfer =>
      obtain ⟨hout, hsent, hle⟩ := hat
      rcases resume_shuttingDown hphase with ⟨text, hfinish⟩ | ⟨hincoming, -, -⟩
      · obtain ⟨left, reply, hfiles, -, hreply⟩ := after_finishFile text ftp
        have hleft : left.state.transfer = .outgoing := by
          rw [hfiles]
          exact houtgoing
        have hpart : left.sent <+: whole := by
          rw [sent_of_files hfiles, hsent]
        rw [hfinish, hreply]
        exact Course.at_lastReply (sound_serving _ _ _) hleft ⟨hpart, by omega⟩ true reply
      · exact absurd hout hincoming
  | _ => exact hat.elim

theorem countdown_serving (source : Option PPath) (whole : Bytes) :
    Course.Countdown (serving source whole) where
  sound := sound_serving source whole
  moves _ := by simp [serving]
  turn env answer h := serving_resume h env answer

theorem serving_part (h : (serving source whole turns).At ftp) : ftp.sent <+: whole := by
  have hat := h.phase
  unfold Course.AtPhase at hat
  split at hat
  · exact hat
  · exact Remaining.part hat
  · exact hat.elim
  · exact hat.elim
  · exact hat.2.1 ▸ List.prefix_rfl
  · exact hat.1
  · exact hat.1
  · exact Remaining.part hat

theorem serving_one_le (h : (serving source whole turns).At ftp)
    (halive : ftp.transferFile.isSome = true) : 1 ≤ turns := by
  have hat := h.phase
  unfold Course.AtPhase at hat
  split at hat
  · rename_i hnone
    rw [hnone] at halive
    cases halive
  · exact (Nat.le_add_left 1 3).trans (Remaining.le hat)
  · exact hat.elim
  · exact hat.elim
  · exact (Nat.le_add_left 1 2).trans hat.2.2
  · exact (Nat.le_add_left 1 1).trans hat.2
  · exact hat.2
  · exact (Nat.le_add_left 1 _).trans (Remaining.le hat)

/-- Others may change the disk, but not the file that is read. -/
theorem serving_onDisk {disk : Disk} (h : (serving source whole turns).At ftp)
    (hsame : ∀ path ∈ source, disk.files.node path = ftp.disk.files.node path) :
    (serving source whole turns).At { ftp with disk } := by
  have hremaining {buffer : Bytes} {slack : Nat}
      (hremaining : Remaining source whole buffer slack turns ftp) :
      Remaining source whole buffer slack turns { ftp with disk } := by
    obtain ⟨file, rest, hfile, ⟨text, hleft, hwire⟩, hbytes, hturns⟩ := hremaining
    refine ⟨file, rest, hfile, ⟨text, ?_, hwire⟩, hbytes, hturns⟩
    generalize file.inner = raw at hleft
    cases hleft with
    | @mapped file content hreading =>
        have hnode := (hsame file.path rfl).trans hreading.node
        exact .mapped ⟨hnode, hreading.fileSize, hreading.pos, hreading.mapped, hreading.segment⟩
    | listing buffers => exact .listing buffers
    | listed => exact .listed
  refine h.follow ⟨rfl, hremaining, ?_, id, id⟩ rfl rfl
  intro phase hat
  cases phase with
  | sending buffer => exact hremaining hat
  | shuttingDown transfer => exact hat
  | _ => exact hat.elim

theorem grown_rule (sent : Bytes) :
    BodyRule (fun ftp => sent <+: ftp.sent) fun ftp => sent <+: ftp.sent where
  files hgrown hfiles := by rwa [sent_of_files hfiles]
  waits hgrown _ := hgrown
  replies hgrown _ _ := hgrown
  notifies hgrown _ := hgrown
  ends hgrown _ := hgrown

/-- What has been sent is never taken back. -/
theorem sent_stepTransfer (hin : ftp.transferFile.isSome = true → ftp.state.isInTransfer = true)
    (event : Event) : ftp.sent <+: (stepTransfer ftp event).sent := by
  rcases stepTransfer_cases hin event with ⟨-, hwork⟩ | ⟨env, answer, -, hstep⟩
  · rw [show (stepTransfer ftp event).sent = ftp.sent from congrArg Work.sent hwork]
  · rw [hstep]
    by_cases hsends : ∃ buffer, ftp.transferFile = some (.sending buffer)
    · obtain ⟨buffer, hphase⟩ := hsends
      have hgrown : ftp.sent <+: ftp.sent ++ buffer := List.prefix_append _ _
      exact (grown_rule ftp.sent).sending hphase List.prefix_rfl hgrown fun _ _ => hgrown
    · rw [sent_resume (fun buffer hphase => hsends ⟨buffer, hphase⟩)]

theorem sent_runTransfer (h : (serving source whole turns).At ftp) (events : List Event) :
    ftp.sent <+: (runTransfer ftp events).sent := by
  induction events generalizing ftp turns with
  | nil => exact List.prefix_rfl
  | cons event events ih =>
      exact (sent_stepTransfer (h.isInTransfer nofun) event).trans (ih ((countdown_serving source whole).step h event))

/-- Behind the last read nothing more is sent. -/
theorem sent_of_shuttingDown (h : (serving source whole turns).At ftp) {transfer : Transfer}
    (hshut : ftp.transferFile = some (.shuttingDown transfer)) (events : List Event) :
    (runTransfer ftp events).sent = whole := by
  have hsent : ftp.sent = whole := by
    have hat := h.phase
    rw [hshut] at hat
    exact hat.2.1
  have hgrown : whole <+: (runTransfer ftp events).sent := by
    rw [← hsent]
    exact sent_runTransfer h events
  exact (serving_part ((countdown_serving source whole).run h events)).eq_of_length_le hgrown.length_le

end Stages

end FtpSession

end Wfde
