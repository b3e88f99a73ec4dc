import Wfde.Proof.TransferPhases

/-!
# Incoming transfers

`ReceiveFile`, whatever the file does with the data. Each read of the socket goes to the buffer that
`Write` has offered and `SetBytesWritten` takes it up. What the calls of the file keep from one to the
next holds at every wait of the coroutine.
-/

namespace Wfde

open Effect FtpSession

/-- A call of `AsyncReadSome` that has ended: the size of the buffer and what it has returned. -/
structure SocketRead where
  offered : Nat
  answer : Answer
  deriving DecidableEq

namespace SocketRead

def bytes (read : SocketRead) : Bytes :=
  match read.answer with
  | .data bytes => bytes
  | _ => []

/-- A read that succeeded and left a part of its buffer. -/
def isShort (read : SocketRead) : Bool :=
  match read.answer with
  | .data bytes => bytes.length < read.offered
  | _ => false

/-- A read that succeeded returns no more than there is room for. -/
def Fits (read : SocketRead) : Prop :=
  ∀ bytes, read.answer = .data bytes → bytes.length ≤ read.offered

/-- A read that succeeded with at least one byte. -/
def Receives (read : SocketRead) : Prop :=
  ∃ bytes, read.answer = .data bytes ∧ 1 ≤ bytes.length ∧ bytes.length ≤ read.offered

/-- The data connection has come to its end or has failed. -/
def Ends (read : SocketRead) : Prop := read.answer = .eof ∨ read.answer = .failed

theorem Receives.fits {read : SocketRead} (h : read.Receives) : read.Fits := by
  obtain ⟨received, hanswer, -, hle⟩ := h
  intro bytes hbytes
  rw [hanswer] at hbytes
  obtain rfl := Answer.data.inj hbytes
  exact hle

theorem Receives.isShort_iff {read : SocketRead} (h : read.Receives) :
    read.isShort = true ↔ read.bytes.length < read.offered := by
  obtain ⟨received, hanswer, -, -⟩ := h
  simp [isShort, bytes, hanswer]

theorem Ends.fits {read : SocketRead} (h : read.Ends) : read.Fits := by
  intro bytes hbytes
  rcases h with heof | hfailed
  · rw [heof] at hbytes
    cases hbytes
  · rw [hfailed] at hbytes
    cases hbytes

end SocketRead

theorem flatMap_bytes_concat (reads : List SocketRead) {last : SocketRead} (hlast : last.Ends) :
    (reads ++ [last]).flatMap SocketRead.bytes = reads.flatMap SocketRead.bytes := by
  rcases hlast with heof | hfailed
  · simp [SocketRead.bytes, heof]
  · simp [SocketRead.bytes, hfailed]

def lastAnswer (past : List SocketRead) : Option Answer := past.getLast?.map SocketRead.answer

theorem lastAnswer_concat (past : List SocketRead) (read : SocketRead) :
    lastAnswer (past ++ [read]) = some read.answer := by
  rw [lastAnswer, List.getLast?_concat]
  rfl

namespace FtpSession

def socketReadOf (ftp : FtpSession) : Event → Option SocketRead
  | .transfer _ answer =>
      match ftp.transferFile with
      | some (.receiving buffer) => some ⟨buffer.size, answer⟩
      | _ => none
  | _ => none

def socketReads (ftp : FtpSession) (events : List Event) : List SocketRead :=
  Machine.trace stepTransfer socketReadOf ftp events

/-- The file of the transfer is open. -/
def On (p : File → Disk → Prop) (ftp : FtpSession) : Prop :=
  ∃ file, ftp.currentFile = some file ∧ p file ftp.disk

/-- What is known of the file of an upload and its disk, for what the socket has returned so far:
when `Write` may be called, when a buffer is offered, when data lies in the buffer, when all data has
come, and of the disk alone when the file is closed. -/
structure Receiver where
  ready : List SocketRead → File → Disk → Prop
  offers : List SocketRead → WriteBuffer → File → Disk → Prop
  stored : List SocketRead → Nat → File → Disk → Prop
  complete : List SocketRead → File → Disk → Prop
  settled : List SocketRead → Disk → Prop

namespace Receiver

/-- What the calls of the file lead from and to. -/
structure Sound (receiver : Receiver) : Prop where
  write : ∀ {past file disk}, receiver.ready past file disk → ∃ buffer file' disk',
    (file.write 0).run disk = .ok (buffer, file') disk' ∧ receiver.offers past buffer file' disk'
  store : ∀ {past buffer file disk bytes}, receiver.offers past buffer file disk →
    bytes.length ≤ buffer.size → ∃ file' disk',
      (file.store bytes buffer).run disk = .ok file' disk'
        ∧ receiver.stored (past ++ [⟨buffer.size, .data bytes⟩]) bytes.length file' disk'
  takeUp : ∀ {past count file disk}, receiver.stored past count file disk → ∃ file' disk',
    (file.setBytesWritten count).run disk = .ok file' disk' ∧ receiver.ready past file' disk'
  finish : ∀ {past buffer file disk}, receiver.offers past buffer file disk → ∃ file' disk',
    (file.setBytesWritten 0).run disk = .ok file' disk'
      ∧ receiver.complete (past ++ [⟨buffer.size, .eof⟩]) file' disk'
  close : ∀ {past file disk}, receiver.complete past file disk → ∃ file' disk',
    file.close.run disk = .ok file' disk' ∧ receiver.settled past (after file'.close disk')
  abandon : ∀ {past file disk}, receiver.complete past file disk →
    receiver.settled past (after file.close disk)
  fail : ∀ {past buffer file disk}, receiver.offers past buffer file disk →
    receiver.settled (past ++ [⟨buffer.size, .failed⟩]) (after file.close disk)
  unsettled : ∀ {past} disk, lastAnswer past ≠ some .eof → lastAnswer past ≠ some .failed →
    receiver.settled past disk

/-- An upload where its coroutine waits. -/
def course (receiver : Receiver) (past : List SocketRead) : Course where
  transfer := .incoming
  before _ ftp := past = [] ∧ On (receiver.ready []) ftp
  moving
    | .receiving buffer => On (receiver.offers past buffer)
    | .warning count => On (receiver.stored past count)
    | .shuttingDown transfer => fun ftp => transfer = .incoming ∧ On (receiver.complete past) ftp
    | _ => fun _ => False
  behind _ ftp := receiver.settled past ftp.closedDisk
  ended ftp := receiver.settled past ftp.disk

variable {receiver : Receiver} {past : List SocketRead} {ftp : FtpSession}

theorem on_of_cargo {p : File → Disk → Prop} {left : FtpSession} (h : On p ftp)
    (hcargo : left.cargo = ftp.cargo) : On p left := by
  have hfile : left.currentFile = ftp.currentFile := congrArg Cargo.currentFile hcargo
  have hdisk : left.disk = ftp.disk := congrArg Cargo.disk hcargo
  obtain ⟨file, hcurrent, hp⟩ := h
  exact ⟨file, hfile.trans hcurrent, by rwa [hdisk]⟩

theorem sound_course (receiver : Receiver) (past : List SocketRead) :
    (receiver.course past).Sound where
  before h hcargo := ⟨h.1, on_of_cargo h.2 hcargo⟩
  moving {phase _ _} h hcargo := by
    cases phase with
    | receiving buffer => exact on_of_cargo h hcargo
    | warning count => exact on_of_cargo h hcargo
    | shuttingDown transfer => exact ⟨h.1, on_of_cargo h.2 hcargo⟩
    | _ => exact h.elim
  behind h hcargo := by
    change receiver.settled past _
    rwa [closedDisk_of_cargo hcargo]
  ended {_ left} h hcargo := by
    change receiver.settled past left.disk
    rwa [show left.disk = _ from congrArg Cargo.disk hcargo]
  gone h hgone := by
    change receiver.settled past _
    rwa [hgone.disk]

/-- The coroutine waits for data, with a buffer to store them in, and the rest is as before. -/
structure Takes (receiver : Receiver) (past : List SocketRead) (before left : FtpSession) : Prop where
  offers : ∃ buffer, left.transferFile = some (.receiving buffer)
    ∧ On (receiver.offers past buffer) left
  transferSck : left.transferSck = before.transferSck
  transfer : left.state.transfer = before.state.transfer

theorem Takes.course {left : FtpSession} (h : Takes receiver past ftp left)
    (htransfer : ftp.state.transfer = .incoming) : (receiver.course past).At left := by
  obtain ⟨buffer, hphase, hon⟩ := h.offers
  refine ⟨fun _ => h.transfer.trans htransfer, ?_⟩
  rw [hphase]
  exact hon

section Sound

variable (hsound : receiver.Sound)
include hsound

theorem settled_nil (disk : Disk) : receiver.settled [] disk :=
  hsound.unsettled disk (by simp [lastAnswer]) (by simp [lastAnswer])

/-- A read that neither ends the data nor fails leaves nothing to be known of the disk. -/
theorem settled_concat {size : Nat} {answer : Answer} (heof : answer ≠ .eof)
    (hfailed : answer ≠ .failed) (disk : Disk) : receiver.settled (past ++ [⟨size, answer⟩]) disk := by
  have hlast : lastAnswer (past ++ [⟨size, answer⟩]) = some answer := lastAnswer_concat past _
  apply hsound.unsettled disk
  · rw [hlast]
    exact fun heq => heof (Option.some.inj heq)
  · rw [hlast]
    exact fun heq => hfailed (Option.some.inj heq)

/-- **The receive loop** offers the next buffer. -/
theorem takes_receiveLoop (h : On (receiver.ready past) ftp) :
    Takes receiver past ftp (after (tryFile receiveLoop) ftp) := by
  obtain ⟨file, hfile, hready⟩ := h
  obtain ⟨buffer, file', disk', hwrite, hoffers⟩ := hsound.write hready
  rw [receiveLoop, after_tryFile_bind (withFile_run hfile hwrite)]
  exact ⟨⟨buffer, rfl, file', rfl, hoffers⟩, rfl, rfl⟩

/-- `SetBytesWritten` and the next `Write`. -/
theorem takes_commit {count : Nat} (h : On (receiver.stored past count) ftp) :
    Takes receiver past ftp (after (tryFile (commit count)) ftp) := by
  obtain ⟨file, hfile, hstored⟩ := h
  obtain ⟨file', disk', htakes, hready⟩ := hsound.takeUp hstored
  let taken : FtpSession := { ftp with disk := disk', currentFile := some file' }
  have hon : On (receiver.ready past) taken := ⟨file', rfl, hready⟩
  have hloop := takes_receiveLoop hsound hon
  rw [commit, setBytesWritten, after_tryFile_bind (withFile_run_unit hfile htakes)]
  exact ⟨hloop.offers, hloop.transferSck, hloop.transfer⟩

theorem leads_course : Course.Leads (receiver.course past) (receiver.course past) where
  transfer := rfl
  waits h _ := h
  enters {_ ftp} h htransfer := by
    obtain ⟨rfl, hready⟩ := h
    have hincoming : ftp.state.transfer = .incoming := htransfer
    rw [after_transferData_eq]
    split
    · rw [if_neg (by rw [hincoming]; decide)]
      exact (takes_receiveLoop hsound hready).course hincoming
    · exact Course.at_notifyFailed (sound_course receiver []) htransfer (settled_nil hsound _)
  fails h := by
    obtain ⟨rfl, -⟩ := h
    exact settled_nil hsound _
  replies h := h
  ended h := h

/-- `ReceiveFile` closes the file, and the destructor closes it again. -/
theorem at_finishFile (text : Bytes) (htransfer : ftp.state.transfer = .incoming)
    (h : On (receiver.complete past) ftp) :
    (receiver.course past).At (after (tryFile (finishFile text)) ftp) := by
  obtain ⟨file, hfile, hcomplete⟩ := h
  obtain ⟨file', disk', hclose, hsettled⟩ := hsound.close hcomplete
  let closing : FtpSession := { ftp with transferSck := some false }
  have hcurrent : closing.currentFile = some file := hfile
  have hrun : closeFile.run closing
      = .ok () { closing with disk := disk', currentFile := some file' } :=
    withFile_run_unit hcurrent hclose
  rw [after_finishFile_of_ok text hrun]
  refine Course.at_lastReply (sound_course receiver past) ?_ ?_ true _
  · exact htransfer
  · exact hsettled

/-- **A read of the socket.** -/
theorem at_receiving {buffer : WriteBuffer} (h : (receiver.course past).At ftp)
    (hphase : ftp.transferFile = some (.receiving buffer)) (env : Env) {answer : Answer}
    (hfits : SocketRead.Fits ⟨buffer.size, answer⟩) :
    (receiver.course (past ++ [⟨buffer.size, answer⟩])).At (after (resume env answer) ftp) := by
  have htransfer : ftp.state.transfer = .incoming := h.transfer (by rw [hphase]; rfl)
  have hat := h.phase
  rw [hphase] at hat
  obtain ⟨file, hfile, hoffers⟩ := hat
  rw [resume_receiving hphase]
  cases answer with
  | data read =>
      obtain ⟨file', disk', hstore, hstored⟩ := hsound.store hoffers (hfits read rfl)
      let left : FtpSession := { ftp with disk := disk', currentFile := some file' }
      have hincoming : left.state.transfer = .incoming := htransfer
      have hon : On (receiver.stored (past ++ [⟨buffer.size, .data read⟩]) read.length) left :=
        ⟨file', rfl, hstored⟩
      have hcommit := (takes_commit hsound hon).course hincoming
      dsimp only
      rw [received, storeFile, after_tryFile_bind (withFile_run_unit hfile hstore)]
      by_cases hexpired : env.expired = true
      · -- the coroutine ends before `SetBytesWritten` has taken up the data
        rw [if_pos hexpired, after_tryFile_of_returns (returns_endTransfer true), after_endTransfer]
        have hsettled : receiver.settled (past ++ [⟨buffer.size, .data read⟩]) left.closedDisk :=
          settled_concat hsound (by simp) (by simp) _
        have hbehind : (receiver.course (past ++ [⟨buffer.size, .data read⟩])).behind 0 left := hsettled
        exact Course.at_ended (sound_course receiver _) hbehind true
      · rw [if_neg hexpired, after_tryFile_bind (EStateM.run_get left)]
        split
        · exact hcommit
        · -- the data connection is closed: the reply 426 is written first, if one can be
          unfold transferReply
          rw [after_tryFile_bind (EStateM.run_get left)]
          split
          · exact ⟨fun _ => htransfer, hon⟩
          · exact hcommit
  | eof =>
      obtain ⟨file', disk', hfinish, hcomplete⟩ := hsound.finish hoffers
      dsimp only
      rw [setBytesWritten, after_tryFile_bind (withFile_run_unit hfile hfinish)]
      exact ⟨fun _ => htransfer, rfl, file', rfl, hcomplete⟩
  | done =>
      refine Course.at_notifyFailed (sound_course receiver _) htransfer ?_
      exact settled_concat hsound (by simp) (by simp) _
  | failed =>
      refine Course.at_notifyFailed (sound_course receiver _) htransfer ?_
      change receiver.settled _ ftp.closedDisk
      rw [closedDisk_of_some hfile]
      exact hsound.fail hoffers

/-- **A turn of the transfer coroutine.** -/
theorem at_resume (h : (receiver.course past).At ftp) (env : Env) (answer : Answer)
    (hfits : ∀ read ∈ socketReadOf ftp (.transfer env answer), read.Fits) :
    (receiver.course (past ++ (socketReadOf ftp (.transfer env answer)).toList)).At
      (after (resume env answer) ftp) := by
  have hread : socketReadOf ftp (.transfer env answer)
      = match ftp.transferFile with
        | some (.receiving buffer) => some ⟨buffer.size, answer⟩
        | _ => none := rfl
  rw [hread] at hfits ⊢
  split
  · rename_i buffer hphase
    rw [hphase] at hfits
    exact at_receiving hsound h hphase env (hfits _ rfl)
  · rename_i hnot
    rw [Option.toList_none, List.append_nil]
    have hcourse := sound_course receiver past
    refine h.turn hcourse hcourse (leads_course hsound) env answer fun phase hphase htransfer hat => ?_
    cases phase with
    | receiving buffer => exact absurd hphase (hnot buffer)
    | warning count =>
        have hcargo := cargo_replyWritten env answer.isDone ftp
        rw [resume_warning hphase]
        exact (takes_commit hsound (on_of_cargo hat hcargo)).course
          ((transfer_of_cargo hcargo).trans htransfer)
    | shuttingDown transfer =>
        obtain ⟨-, hcomplete⟩ := hat
        rcases resume_shuttingDown hphase with ⟨text, hfinish⟩ | ⟨-, -, hfailed⟩
        · rw [hfinish]
          exact at_finishFile hsound text htransfer hcomplete
        · obtain ⟨file, hfile, hfull⟩ := hcomplete
          rw [hfailed]
          refine Course.at_notifyFailed hcourse htransfer ?_
          change receiver.settled past ftp.closedDisk
          rw [closedDisk_of_some hfile]
          exact hsound.abandon hfull
    | _ => exact hat.elim

theorem at_step (h : (receiver.course past).At ftp) (event : Event)
    (hfits : ∀ read ∈ socketReadOf ftp event, read.Fits) :
    (receiver.course (past ++ (socketReadOf ftp event).toList)).At (stepTransfer ftp event) := by
  rcases stepTransfer_cases (h.isInTransfer nofun) event with ⟨hother, hwork⟩ | ⟨env, answer, rfl, hstep⟩
  · have hread : socketReadOf ftp event = none := by
      cases event with
      | transfer => cases hother
      | _ => rfl
    rw [hread, Option.toList_none, List.append_nil]
    exact h.of_work (sound_course receiver past) hwork
  · rw [hstep]
    exact at_resume hsound h env answer hfits

theorem at_run (h : (receiver.course []).At ftp) (events : List Event)
    (hfits : ∀ read ∈ socketReads ftp events, read.Fits) :
    (receiver.course (socketReads ftp events)).At (runTransfer ftp events) := by
  have hinv := Machine.trace_induction stepTransfer socketReadOf
    (fun past ftp => (∀ read ∈ past, read.Fits) → (receiver.course past).At ftp)
    (fun past ftp event hstage hfits => by
      have hpast := hstage fun read hread => hfits read (List.mem_append_left _ hread)
      exact at_step hsound hpast event fun read hread =>
        hfits read (List.mem_append_right _ (Option.mem_toList.mpr hread)))
    (fun _ => h) events
  exact hinv hfits

end Sound

end Receiver

section Closing

variable {receiver : Receiver} {past : List SocketRead} {ftp : FtpSession} {turns : Nat}
  {event : Event} {last : SocketRead}

/-- An upload that moves no more data and is over within so many turns. -/
def closing (turns : Nat) : Course where
  transfer := .incoming
  before _ _ := False
  moving phase _ := phase = .shuttingDown .incoming ∧ 3 ≤ turns
  behind count _ := count ≤ turns
  ended _ := True

theorem sound_closing (turns : Nat) : (closing turns).Sound where
  before h _ := h
  moving h _ := h
  behind h _ := h
  ended h _ := h
  gone _ _ := trivial

theorem leads_closing (turns : Nat) : Course.Leads (closing turns) (closing (turns - 1)) where
  transfer := rfl
  waits h _ := h
  enters h _ := h.elim
  fails h := h.elim
  replies h := Nat.le_sub_one_of_lt h
  ended h := h

theorem closing_resume (h : (closing turns).At ftp) (env : Env) (answer : Answer) :
    (closing (turns - 1)).At (after (resume env answer) ftp) := by
  refine h.turn (sound_closing _) (sound_closing _) (leads_closing turns) env answer
    fun phase hphase htransfer hat => ?_
  obtain ⟨rfl, hturns⟩ := hat
  have hleft : 2 ≤ turns - 1 := Nat.le_sub_one_of_lt hturns
  rcases resume_shuttingDown hphase with ⟨text, hfinish⟩ | ⟨-, -, hfailed⟩
  · obtain ⟨left, reply, hfiles, -, hreply⟩ := after_finishFile text ftp
    have hstate : left.state = ftp.state := by rw [hfiles]
    rw [hfinish, hreply]
    refine Course.at_lastReply (sound_closing _) ?_ (Nat.le_of_succ_le hleft) true reply
    rw [hstate]
    exact htransfer
  · rw [hfailed]
    exact Course.at_notifyFailed (sound_closing _) htransfer hleft

theorem countdown_closing : Course.Countdown closing where
  sound := sound_closing
  moves _ := by simp [closing]
  turn env answer h := closing_resume h env answer

theorem isSome_of_socketReadOf (hread : socketReadOf ftp event = some last) :
    ftp.transferFile.isSome = true := by
  unfold socketReadOf at hread
  split at hread
  · cases hphase : ftp.transferFile with
    | none =>
        rw [hphase] at hread
        cases hread
    | some phase => rfl
  · cases hread

/-- Behind the last read of an upload three turns of the coroutine are left. -/
theorem closing_of_last (htransfer : ftp.state.transfer = .incoming)
    (hread : socketReadOf ftp event = some last) (hlast : last.Ends) :
    (closing 3).At (stepTransfer ftp event) := by
  unfold socketReadOf at hread
  split at hread
  · rename_i env answer
    split at hread
    · rename_i buffer hphase
      obtain rfl := Option.some.inj hread
      rw [stepTransfer, hphase, if_pos Option.isSome_some]
      change (closing 3).At (after (resume env answer) ftp)
      rw [resume_receiving hphase]
      rcases hlast with rfl | rfl
      · have hwaits : Waits (· = .shuttingDown .incoming) (do
            FtpSession.setBytesWritten 0
            wait (.shuttingDown .incoming)) :=
          waits_bind (files_withFile _) fun _ => waits_wait rfl
        have htried := after_tryFile hwaits ftp
        dsimp only
        generalize after (tryFile _) ftp = left at htried
        cases htried with
        | @waits left _ hfiles hphase =>
            obtain rfl := hphase
            have hstate : left.state = ftp.state := by rw [hfiles]
            exact ⟨fun _ => (congrArg FtpState.transfer hstate).trans htransfer, rfl, le_rfl⟩
        | @fails left hfiles =>
            have hstate : left.state = ftp.state := by rw [hfiles]
            refine Course.at_lastReply (sound_closing 3) ?_ (Nat.le_add_left 1 2) true _
            exact (congrArg FtpState.transfer hstate).trans htransfer
      · exact Course.at_notifyFailed (sound_closing 3) htransfer (Nat.le_succ 2)
    · cases hread
  · cases hread

theorem closing_mono {more : Nat} (h : (closing turns).At ftp) (hle : turns ≤ more) :
    (closing more).At ftp := by
  refine h.follow ⟨rfl, id, ?_, ?_, id⟩ rfl rfl
  · rintro phase ⟨hphase, hturns⟩
    exact ⟨hphase, hturns.trans hle⟩
  · intro count hcount
    exact Nat.le_trans hcount hle

theorem ended_of_closing {count : Nat} (h : (closing (3 - count)).At ftp) (hcount : 3 ≤ count) :
    ftp.transferFile = none := by
  have hat := h.phase
  rw [Nat.sub_eq_zero_of_le hcount] at hat
  unfold Course.AtPhase at hat
  split at hat
  · assumption
  all_goals simp [closing] at hat

/-- Nothing is read any more. -/
theorem closing_socketReads (h : (closing turns).At ftp) (events : List Event) :
    socketReads ftp events = [] := by
  induction events generalizing ftp turns with
  | nil => rfl
  | cons event events ih =>
      have hread : socketReadOf ftp event = none := by
        have hat := h.phase
        unfold socketReadOf
        split
        · split
          · rename_i hphase
            rw [hphase] at hat
            cases hat.1
          · rfl
        · rfl
      rw [socketReads, Machine.trace, hread]
      exact ih (countdown_closing.step h event)

/-- **The end of an upload** comes with the last read. -/
theorem Receiver.ends (hsound : receiver.Sound) {events : List Event} {reads : List SocketRead}
    (h : (receiver.course []).At ftp) (hreads : socketReads ftp events = reads ++ [last])
    (hfits : ∀ read ∈ reads, read.Fits) (hlast : last.Ends) (more : List Event) :
    (receiver.course (reads ++ [last])).At (runTransfer ftp (events ++ more))
      ∧ (closing (3 - more.countP Event.isTransfer)).At (runTransfer ftp (events ++ more)) := by
  obtain ⟨front, event, back, rfl, hfront, hread⟩ := Machine.exists_of_trace_eq _ _ hreads
  have hpast : (receiver.course reads).At (runTransfer ftp front) := by
    have hrun := at_run hsound h front (by rw [socketReads, hfront]; exact hfits)
    rwa [socketReads, hfront] at hrun
  have hclosing : (closing 3).At (runTransfer ftp (front ++ event :: back)) := by
    have hlast := closing_of_last (hpast.transfer (isSome_of_socketReadOf hread)) hread hlast
    have hrun := closing_mono (countdown_closing.run hlast back) (Nat.sub_le _ _)
    rwa [runTransfer, Machine.run_append]
  have hall : socketReads ftp (front ++ event :: back ++ more) = reads ++ [last] := by
    rw [socketReads, Machine.trace_append]
    have hnothing := closing_socketReads hclosing more
    rw [socketReads, runTransfer] at hnothing
    rw [hnothing, List.append_nil]
    exact hreads
  refine ⟨hall ▸ at_run hsound h _ fun read hread => ?_, ?_⟩
  · rw [hall] at hread
    rcases List.mem_append.mp hread with hmem | hmem
    · exact hfits read hmem
    · obtain rfl := List.mem_singleton.mp hmem
      exact hlast.fits
  · rw [runTransfer, Machine.run_append]
    exact countdown_closing.run hclosing more

end Closing

end FtpSession

end Wfde
