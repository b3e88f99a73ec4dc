import Wfde.Proof.IncomingTransfers

/-!
# Transfers that go on

Nothing but an abort, an error or the end of the session keeps a transfer from the end of its data. Its
connection is made, and an upload takes whatever the socket reads.
-/

namespace Wfde

open Effect

namespace FtpSession

variable {env : Env} {ftp left : FtpSession} {phase : TransferPhase}

/-- The turns of the coroutine when all that it waits for is done. -/
def doneTurns (env : Env) (count : Nat) : List Event := List.replicate count (.transfer env .done)

/-- Such turns lead from one state to the other, and nothing is received in them. -/
def Reaches (env : Env) (ftp left : FtpSession) : Prop :=
  ∃ count, runTransfer ftp (doneTurns env count) = left ∧ socketReads ftp (doneTurns env count) = []

theorem Reaches.refl (ftp : FtpSession) : Reaches env ftp ftp := ⟨0, rfl, rfl⟩

theorem Reaches.head (hphase : ftp.transferFile = some phase)
    (hother : ∀ buffer, phase ≠ .receiving buffer)
    (h : Reaches env (after (resume env .done) ftp) left) : Reaches env ftp left := by
  obtain ⟨count, hrun, hreads⟩ := h
  have hstep : stepTransfer ftp (.transfer env .done) = after (resume env .done) ftp := by
    rw [stepTransfer, hphase]
    rfl
  have hread : socketReadOf ftp (.transfer env .done) = none := by
    rw [socketReadOf, hphase]
    cases phase with
    | receiving buffer => exact absurd rfl (hother buffer)
    | _ => rfl
  refine ⟨count + 1, ?_, ?_⟩
  · rw [doneTurns, List.replicate_succ, runTransfer, Machine.run_cons, hstep]
    exact hrun
  · rw [doneTurns, List.replicate_succ, socketReads, Machine.trace, hread, hstep]
    exact hreads

section Connection

/-- Nothing keeps the coroutine from its data connection. -/
structure Undisturbed (ftp : FtpSession) : Prop where
  replyFailed : ftp.replyFailed = false
  closed : ftp.closed = false
  closePending : ftp.closePending = false

/-- The data connection is there, and the work is as before. -/
structure Connected (before after : FtpSession) : Prop where
  transferSck : after.transferSck = some true
  currentFile : after.currentFile = before.currentFile
  disk : after.disk = before.disk
  transfer : after.state.transfer = before.state.transfer

theorem reaches_connected (env : Env) (ftp : FtpSession) : ∃ last, Connected ftp last
    ∧ Reaches env (after connected ftp) (after transferData last) := by
  let opened : FtpSession :=
    { ftp with abortTransfer := some .transferSocket, transferSck := some true }
  rw [after_connected]
  split
  · let waiting : FtpSession := { opened with transferFile := some .handshaking }
    have hphase : waiting.transferFile = some .handshaking := rfl
    refine ⟨waiting, ⟨rfl, rfl, rfl, rfl⟩, Reaches.head hphase (by simp) ?_⟩
    rw [resume_handshaking hphase]
    exact Reaches.refl _
  · exact ⟨opened, ⟨rfl, rfl, rfl, rfl⟩, Reaches.refl _⟩

theorem reaches_announced (h : Undisturbed ftp) (hexpired : env.expired = false) :
    ∃ last, Connected ftp last ∧ Reaches env (after (announced env) ftp) (after transferData last) := by
  have hgoes : (ftp.replyFailed || env.expired || ftp.closed || ftp.closePending) = false := by
    rw [h.replyFailed, hexpired, h.closed, h.closePending]
    rfl
  rw [after_announced, hgoes, if_neg Bool.false_ne_true]
  split
  · let waiting : FtpSession := { ftp with transferFile := some .connecting }
    have hphase : waiting.transferFile = some .connecting := rfl
    obtain ⟨last, hlast, hreaches⟩ := reaches_connected env waiting
    refine ⟨last, ⟨hlast.transferSck, hlast.currentFile, hlast.disk, hlast.transfer⟩, ?_⟩
    apply Reaches.head hphase (by simp)
    rw [resume_connecting hphase, hexpired]
    exact hreaches
  · let waiting : FtpSession :=
      { ftp with abortTransfer := some .acceptor, transferFile := some .accepting }
    have hphase : waiting.transferFile = some .accepting := rfl
    obtain ⟨last, hlast, hreaches⟩ := reaches_connected env waiting
    refine ⟨last, ⟨hlast.transferSck, hlast.currentFile, hlast.disk, hlast.transfer⟩, ?_⟩
    apply Reaches.head hphase (by simp)
    rw [resume_accepting hphase]
    exact hreaches

/-- **The data connection** is made. -/
theorem Undisturbed.connects (h : Undisturbed ftp) (hphase : ftp.transferFile = some .spawned)
    (hexpired : env.expired = false) :
    ∃ last, Connected ftp last ∧ Reaches env ftp (after transferData last) := by
  by_cases hcan : ftp.canReply = true
  · let announcing := ftp.replying { code := .openingConnection } .announcing
    let written := after (replyWritten env true) announcing
    have hwritten : Undisturbed written ∧ written.currentFile = ftp.currentFile
        ∧ written.disk = ftp.disk ∧ written.state.transfer = ftp.state.transfer := by
      simp only [written, after_replyWritten]
      exact ⟨⟨h.replyFailed, h.closed, h.closePending⟩, rfl, rfl, rfl⟩
    obtain ⟨hundisturbed, hfile, hdisk, htransfer⟩ := hwritten
    obtain ⟨last, hlast, hreaches⟩ := reaches_announced hundisturbed hexpired
    refine ⟨last, ⟨hlast.transferSck, hlast.currentFile.trans hfile, hlast.disk.trans hdisk,
      hlast.transfer.trans htransfer⟩, ?_⟩
    have hannouncing : announcing.transferFile = some .announcing := rfl
    apply Reaches.head hphase (by simp)
    rw [resume_spawned hphase, if_pos hcan]
    apply Reaches.head hannouncing (by simp)
    rw [resume_announcing hannouncing]
    exact hreaches
  · obtain ⟨last, hlast, hreaches⟩ := reaches_announced h hexpired
    refine ⟨last, hlast, ?_⟩
    apply Reaches.head hphase (by simp)
    rw [resume_spawned hphase, if_neg hcan]
    exact hreaches

end Connection

section Uploads

variable {receiver : Receiver} {past : List SocketRead} {size : Nat} {opened : FtpSession}

/-- The buffers that are offered have that size. -/
def Receiver.Offers (receiver : Receiver) (size : Nat) : Prop :=
  ∀ {past buffer file disk}, receiver.offers past buffer file disk → buffer.size = size

theorem Receiver.Takes.data (hsound : receiver.Sound) (hsize : receiver.Offers size)
    (h : receiver.Takes past opened ftp) (hsck : opened.transferSck = some true)
    (hexpired : env.expired = false) {read : Bytes} (hle : read.length ≤ size) :
    receiver.Takes (past ++ [⟨size, .data read⟩]) opened (after (resume env (.data read)) ftp) := by
  obtain ⟨buffer, hphase, file, hfile, hoffers⟩ := h.offers
  obtain rfl := hsize hoffers
  obtain ⟨stored, disk', hstore, hstored⟩ := hsound.store hoffers hle
  let left : FtpSession := { ftp with disk := disk', currentFile := some stored }
  have hon : On (receiver.stored (past ++ [⟨buffer.size, .data read⟩]) read.length) left :=
    ⟨stored, rfl, hstored⟩
  have hnext := Receiver.takes_commit hsound hon
  rw [resume_receiving hphase]
  dsimp only
  rw [received, storeFile, after_tryFile_bind (withFile_run_unit hfile hstore), hexpired,
    if_neg Bool.false_ne_true, after_tryFile_bind (EStateM.run_get left),
    if_pos (h.transferSck.trans hsck)]
  exact ⟨hnext.offers, hnext.transferSck.trans h.transferSck, hnext.transfer.trans h.transfer⟩

theorem Receiver.Takes.socketReadOf (hsize : receiver.Offers size) (h : receiver.Takes past opened ftp)
    (answer : Answer) : socketReadOf ftp (.transfer env answer) = some ⟨size, answer⟩ := by
  obtain ⟨buffer, hphase, file, -, hoffers⟩ := h.offers
  rw [FtpSession.socketReadOf, hphase]
  exact congrArg (fun size => some (SocketRead.mk size answer)) (hsize hoffers)

theorem Receiver.Takes.stepTransfer (h : receiver.Takes past opened ftp) (answer : Answer) :
    stepTransfer ftp (.transfer env answer) = after (resume env answer) ftp := by
  obtain ⟨_, hphase, -⟩ := h.offers
  rw [FtpSession.stepTransfer, hphase]
  rfl

/-- **All reads** up to the last one, whatever that is, are taken. -/
theorem Receiver.Takes.reads (hsound : receiver.Sound) (hsize : receiver.Offers size)
    (h : receiver.Takes past opened ftp) (hsck : opened.transferSck = some true)
    (hexpired : env.expired = false) {chunks : List Bytes}
    (hle : ∀ chunk ∈ chunks, chunk.length ≤ size) (last : Answer) :
    socketReads ftp ((chunks.map Answer.data ++ [last]).map (.transfer env))
      = (chunks.map Answer.data ++ [last]).map (SocketRead.mk size) := by
  induction chunks generalizing ftp past with
  | nil =>
      rw [List.map_nil, List.nil_append, List.map_singleton, socketReads, Machine.trace,
        h.socketReadOf hsize]
      rfl
  | cons chunk chunks ih =>
      have hnext := h.data hsound hsize hsck hexpired (hle chunk List.mem_cons_self)
      have hrest := ih hnext fun other hother => hle other (List.mem_cons_of_mem _ hother)
      rw [List.map_cons, List.cons_append, List.map_cons, socketReads, Machine.trace,
        h.socketReadOf hsize, h.stepTransfer]
      exact congrArg (SocketRead.mk size (.data chunk) :: ·) hrest

/-- An upload that nothing disturbs reads whatever the socket returns, up to the end of the data or a
failure. -/
def ReadsUndisturbed (ftp : FtpSession) : Prop :=
  Undisturbed ftp → ∀ (env : Env) (chunks : List Bytes) (last : Answer), env.expired = false →
    (∀ chunk ∈ chunks, chunk.length ≤ ftp.segmentSize) → ∃ count,
    socketReads ftp (doneTurns env count ++ (chunks.map Answer.data ++ [last]).map (.transfer env))
      = (chunks.map Answer.data ++ [last]).map (SocketRead.mk ftp.segmentSize)

theorem Receiver.readsUndisturbed (hsound : receiver.Sound) (hsize : receiver.Offers ftp.segmentSize)
    (hphase : ftp.transferFile = some .spawned) (htransfer : ftp.state.transfer = .incoming)
    (h : On (receiver.ready []) ftp) : ReadsUndisturbed ftp := by
  intro hundisturbed env chunks last hexpired hle
  obtain ⟨file, hfile, hready⟩ := h
  obtain ⟨opened, hopened, count, hconnects, hnothing⟩ := hundisturbed.connects hphase hexpired
  have hon : On (receiver.ready []) opened :=
    ⟨file, hopened.currentFile.trans hfile, by rwa [hopened.disk]⟩
  have hincoming : ¬ opened.state.transfer = .outgoing := by
    rw [hopened.transfer, htransfer]
    decide
  have hdata : after transferData opened = after (tryFile receiveLoop) opened := by
    rw [after_transferData_eq, if_pos hopened.transferSck, if_neg hincoming]
  have htakes : receiver.Takes [] opened (runTransfer ftp (doneTurns env count)) := by
    rw [hconnects, hdata]
    exact Receiver.takes_receiveLoop hsound hon
  refine ⟨count, ?_⟩
  rw [socketReads, Machine.trace_append]
  calc
    socketReads ftp (doneTurns env count) ++ socketReads (runTransfer ftp (doneTurns env count))
        ((chunks.map Answer.data ++ [last]).map (.transfer env))
      = socketReads (runTransfer ftp (doneTurns env count))
        ((chunks.map Answer.data ++ [last]).map (.transfer env)) := by rw [hnothing, List.nil_append]
    _ = (chunks.map Answer.data ++ [last]).map (SocketRead.mk ftp.segmentSize) :=
        htakes.reads hsound hsize hopened.transferSck hexpired hle last

end Uploads

end FtpSession

end Wfde
