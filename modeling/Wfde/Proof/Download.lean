import Wfde.Proof.OutgoingTransfers
import Wfde.Proof.Progress

/-!
# Downloads

`SendFile` on a mapped file. When the connection is being shut down the whole file has been sent, and a
download that nothing disturbs comes to that.
-/

namespace Wfde

open Effect FtpSession

namespace FtpSession

/-- A transfer that has been started with a file that was opened to be read. -/
structure Downloading (ftp : FtpSession) (content : Bytes) : Prop where
  phase : ftp.transferFile = some .spawned
  transfer : ftp.state.transfer = .outgoing
  file : ∃ file, ftp.currentFile = some (.raw (.mapped file))
    ∧ WfdeFile.Reading file ftp.disk content ∧ file.pos = 0

variable {ftp : FtpSession} {content rest : Bytes} {source : Option PPath} {file : File} {env : Env}

/-- The whole file is left to be sent. -/
theorem Downloading.hasLeft (h : Downloading ftp content) : ∃ file source,
    ftp.currentFile = some file ∧ file.HasLeft ftp.disk source content := by
  obtain ⟨file, hcurrent, hreading, hpos⟩ := h.file
  have hleft := RawFile.HasLeft.mapped hreading
  rw [hpos, List.drop_zero] at hleft
  exact ⟨_, _, hcurrent, content, hleft, rfl⟩

theorem Downloading.serving (h : Downloading ftp content) :
    ∃ source turns, (serving source (ftp.sent ++ content) turns).At ftp := by
  obtain ⟨file, source, hcurrent, hleft⟩ := h.hasLeft
  refine ⟨source, file.inner.readsLeft + 8, fun _ => h.transfer, ?_⟩
  rw [h.phase]
  exact ⟨file, content, hcurrent, hleft, by rw [List.append_nil], le_rfl⟩

/-- **A whole download.** When the connection is being shut down, the content has been sent. -/
theorem Downloading.sends (h : Downloading ftp content) {events : List Event} {transfer : Transfer}
    (hshut : (runTransfer ftp events).transferFile = some (.shuttingDown transfer))
    (more : List Event) : (runTransfer ftp (events ++ more)).sent = ftp.sent ++ content := by
  obtain ⟨source, turns, hserving⟩ := h.serving
  rw [runTransfer, Machine.run_append]
  exact sent_of_shuttingDown ((countdown_serving _ _).run hserving events) hshut more

/-- **The send loop** comes to the end of the data, since every buffer leaves fewer to be read. -/
theorem reaches_shuttingDown (hexpired : env.expired = false) (hfile : ftp.currentFile = some file)
    (hleft : file.HasLeft ftp.disk source rest) :
    ∃ last, last.transferFile = some (.shuttingDown .outgoing)
      ∧ Reaches env (after (tryFile sendLoop) ftp) last := by
  induction hreads : file.inner.readsLeft using Nat.strong_induction_on
    generalizing ftp file rest with
  | _ reads ih =>
      obtain ⟨waiting, hrun, hloop⟩ := sendLoop_run hfile hleft
      rw [tryFile, after_of_ok (tryCatch_of_ok hrun)]
      cases hloop with
      | @sends next buffer rest' hmore hbytes hless =>
          let waiting : FtpSession :=
            { ftp with currentFile := some next, transferFile := some (.sending buffer) }
          let sent : FtpSession := { waiting with sent := ftp.sent ++ buffer }
          have hphase : waiting.transferFile = some (.sending buffer) := rfl
          have hsent : sent.currentFile = some next := rfl
          obtain ⟨last, hlast, hreaches⟩ := ih _ (hreads ▸ hless) hsent hmore rfl
          refine ⟨last, hlast, ?_⟩
          apply Reaches.head hphase (by simp)
          have hdone : Answer.isDone .done = true := rfl
          rw [resume_sending hphase, if_pos hdone, hexpired, if_neg Bool.false_ne_true]
          exact hreaches
      | ends hend hfiles => exact ⟨_, rfl, Reaches.refl _⟩

/-- A download that nothing disturbs comes to shutting down the connection. -/
def SendsUndisturbed (ftp : FtpSession) : Prop :=
  Undisturbed ftp → ∀ env : Env, env.expired = false → ∃ count,
    (runTransfer ftp (doneTurns env count)).transferFile = some (.shuttingDown .outgoing)

theorem Downloading.sendsUndisturbed (h : Downloading ftp content) : SendsUndisturbed ftp := by
  intro hundisturbed env hexpired
  obtain ⟨file, source, hcurrent, hleft⟩ := h.hasLeft
  obtain ⟨opened, hopened, count, hconnects, -⟩ := hundisturbed.connects h.phase hexpired
  have hfile : opened.currentFile = some file := hopened.currentFile.trans hcurrent
  have hopen : file.HasLeft opened.disk source content := by rwa [hopened.disk]
  have houtgoing : opened.state.transfer = .outgoing := hopened.transfer.trans h.transfer
  have hdata : after transferData opened = after (tryFile sendLoop) opened := by
    rw [after_transferData_eq, if_pos hopened.transferSck, if_pos houtgoing]
  obtain ⟨last, hlast, more, hreaches, -⟩ := reaches_shuttingDown hexpired hfile hopen
  refine ⟨count + more, ?_⟩
  rw [doneTurns, ← List.replicate_append_replicate, runTransfer, Machine.run_append]
  calc
    (Machine.run stepTransfer (runTransfer ftp (doneTurns env count)) (doneTurns env more)).transferFile
      = (runTransfer (after (tryFile sendLoop) opened) (doneTurns env more)).transferFile := by
        rw [hconnects, hdata]
        rfl
    _ = some (.shuttingDown .outgoing) := by rw [hreaches, hlast]

end FtpSession

end Wfde
