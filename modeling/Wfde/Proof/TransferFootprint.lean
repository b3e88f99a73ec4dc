import Wfde.Proof.FileFootprint
import Wfde.Proof.TransferFrame

/-!
# Transfers on two disks

Two sessions that differ in nothing but what they do not see of their disks. The transfer coroutine
keeps them so: it works on the file it was given, which it changes only where it may.
-/

namespace Wfde

open Effect

/-- The phases behind which the coroutine writes to its file. -/
def TransferPhase.Receives : Option TransferPhase → Prop
  | some (.receiving _) => True
  | some (.warning _) => True
  | _ => False

namespace FtpSession

/-- The file may be written. When it need not be, a file that is only sent will do. -/
def Uses (reach : Reach) (toWrite : Bool) (ftp : FtpSession) (file : File) : Prop :=
  file.inner.Writable reach
    ∨ toWrite = false ∧ ftp.state.transfer = .outgoing ∧ ¬ TransferPhase.Receives ftp.transferFile
      ∧ file.inner.Within reach

/-- Two sessions that differ in nothing but what they do not see of their disks. -/
structure Twin (reach : Reach) (outer : FileSystem) (holds : Permissions → Prop) (toWrite : Bool)
    (ftp ftp' : FtpSession) : Prop where
  same : ftp' = { ftp with disk := ftp'.disk }
  disks : Twins reach outer ftp.disk ftp'.disk
  permissions : holds ftp.session.permissions
  file : ∀ file, ftp.currentFile = some file → Uses reach toWrite ftp file

/-- A change that the relation does not notice. -/
structure Unseen (f : FtpSession → FtpSession) : Prop where
  disk : ∀ ftp disk, f { ftp with disk } = { f ftp with disk }
  permissions : ∀ ftp, (f ftp).session.permissions = ftp.session.permissions
  currentFile : ∀ ftp, (f ftp).currentFile = ftp.currentFile
  transferFile : ∀ ftp, (f ftp).transferFile = ftp.transferFile
  transfer : ∀ ftp, (f ftp).state.transfer = ftp.state.transfer

variable {reach : Reach} {outer : FileSystem} {holds : Permissions → Prop} {toWrite : Bool}
  {ftp ftp' : FtpSession}

theorem Uses.within {file : File} (h : Uses reach toWrite ftp file) : file.inner.Within reach :=
  h.elim RawFile.Writable.within fun h => h.2.2.2

namespace Twin

theorem unseen {f : FtpSession → FtpSession} (h : Twin reach outer holds toWrite ftp ftp')
    (hf : Unseen f) : Twin reach outer holds toWrite (f ftp) (f ftp') := by
  have hdisk (ftp : FtpSession) : (f ftp).disk = ftp.disk := by
    have hsame : f ftp = { f ftp with disk := ftp.disk } := hf.disk ftp ftp.disk
    rw [hsame]
  refine ⟨?_, ?_, ?_, ?_⟩
  · rw [hdisk ftp']
    exact (congrArg f h.same).trans (hf.disk ftp ftp'.disk)
  · rw [hdisk, hdisk]
    exact h.disks
  · rw [hf.permissions]
    exact h.permissions
  · intro file hfile
    rw [hf.currentFile] at hfile
    unfold Uses
    rw [hf.transfer, hf.transferFile]
    exact h.file file hfile

/-- A session that may write its file may do so in any phase. -/
theorem weaken (h : Twin reach outer holds true ftp ftp') :
    Twin reach outer holds toWrite ftp ftp' :=
  ⟨h.same, h.disks, h.permissions, fun file hfile =>
    (h.file file hfile).imp id fun hsends => absurd hsends.1 (by simp)⟩

theorem strengthen (h : Twin reach outer holds toWrite ftp ftp')
    (hwrites : ftp.state.transfer ≠ .outgoing ∨ TransferPhase.Receives ftp.transferFile) :
    Twin reach outer holds true ftp ftp' :=
  ⟨h.same, h.disks, h.permissions, fun file hfile => (h.file file hfile).imp_right fun hsends =>
    (hwrites.elim (fun hnot => hnot hsends.2.1) fun hreceives => hsends.2.2.1 hreceives).elim⟩

theorem onDisk (h : Twin reach outer holds toWrite ftp ftp') {disk disk' : Disk}
    (hdisks : Twins reach outer disk disk') :
    Twin reach outer holds toWrite { ftp with disk := disk } { ftp' with disk := disk' } :=
  ⟨by rw [h.same], hdisks, h.permissions, h.file⟩

/-- The file may have been moved on, and another phase reached. -/
theorem withFile (h : Twin reach outer holds toWrite ftp ftp') {disk disk' : Disk}
    (hdisks : Twins reach outer disk disk') (currentFile : Option File)
    (hfile : ∀ file, currentFile = some file → Uses reach toWrite ftp file) :
    Twin reach outer holds toWrite { ftp with disk := disk, currentFile }
      { ftp' with disk := disk', currentFile } :=
  ⟨by rw [h.same], hdisks, h.permissions, hfile⟩

end Twin

section Rules

variable {α β : Type} {p : α → Prop} {q : β → Prop}

theorem parallel_unseen {f : FtpSession → FtpSession} (hf : Unseen f) :
    Parallel (Twin reach outer holds toWrite) (fun _ => True) (modify f : FtpM Unit) :=
  parallel_modify fun _ _ h => h.unseen hf

/-- What is looked at is not the disk. -/
theorem parallel_look {f : FtpSession → FtpM β} (hblind : ∀ ftp disk, f { ftp with disk } = f ftp)
    (hf : ∀ ftp ftp', Twin reach outer holds toWrite ftp ftp' →
      Parallel (Twin reach outer holds toWrite) q (f ftp)) :
    Parallel (Twin reach outer holds toWrite) q (get >>= f) := by
  refine parallel_get (fun ftp ftp' h => ?_) hf
  rw [h.same]
  exact hblind ftp _

theorem parallel_look_at {f : FtpSession → FtpM β} (hblind : ∀ ftp disk, f { ftp with disk } = f ftp)
    (hf : ∀ ftp ftp', Twin reach outer holds toWrite ftp ftp' →
      ParallelAt (Twin reach outer holds toWrite) q (f ftp) ftp ftp') :
    Parallel (Twin reach outer holds toWrite) q (get >>= f) := by
  refine parallel_get_at (fun ftp ftp' h => ?_) hf
  rw [h.same]
  exact hblind ftp _

theorem parallel_getState {f : FtpState → FtpM β}
    (hf : ∀ state, Parallel (Twin reach outer holds toWrite) q (f state)) :
    Parallel (Twin reach outer holds toWrite) q (getState >>= f) := by
  have hget : getState >>= f = get >>= fun ftp => f ftp.state := rfl
  rw [hget]
  exact parallel_look (fun _ _ => rfl) fun ftp _ _ => hf ftp.state

theorem parallel_onDisk {x : DiskM α} (hx : Parallel (Twins reach outer) p x) :
    Parallel (Twin reach outer holds toWrite) p (onDisk x) := by
  intro ftp ftp' h
  have hruns := hx _ _ h.disks
  unfold ParallelAt EStateM.run at hruns ⊢
  unfold FtpSession.onDisk EStateM.run
  cases hs : x ftp.disk <;> cases ht : x ftp'.disk <;> simp only [hs, ht] at hruns ⊢
  · exact ⟨hruns.1, hruns.2.1, h.onDisk hruns.2.2⟩
  · exact ⟨hruns.1, h.onDisk hruns.2⟩

/-- What a call of the file makes of it stays as useful as it was. -/
theorem parallel_withFile {x : File → DiskM (α × File)}
    (hx : ∀ file ftp, Uses reach toWrite ftp file →
      Parallel (Twins reach outer) (fun result => Uses reach toWrite ftp result.2) (x file)) :
    Parallel (Twin reach outer holds toWrite) (fun _ => True) (withFile x) := by
  intro ftp ftp' h
  have hcurrent : ftp'.currentFile = ftp.currentFile := by rw [h.same]
  unfold ParallelAt withFile
  rw [EStateM.run_bind, EStateM.run_bind, EStateM.run_get, EStateM.run_get]
  dsimp only
  rw [hcurrent]
  cases hfile : ftp.currentFile with
  | none => exact ⟨rfl, h⟩
  | some file =>
      have hruns := hx file ftp (h.file file hfile) _ _ h.disks
      dsimp only
      rw [EStateM.run_bind, EStateM.run_bind]
      unfold ParallelAt EStateM.run at hruns
      unfold FtpSession.onDisk EStateM.run
      cases hs : x file ftp.disk <;> cases ht : x file ftp'.disk <;> simp only [hs, ht] at hruns ⊢
      · obtain ⟨rfl, huses, hdisks⟩ := hruns
        refine ⟨rfl, trivial, h.withFile hdisks _ fun other hother => ?_⟩
        rwa [← Option.some.inj hother]
      · exact ⟨hruns.1, h.onDisk hruns.2⟩

end Rules

/-- Both sessions go on alike. -/
abbrev InStep (reach : Reach) (outer : FileSystem) (holds : Permissions → Prop) (toWrite : Bool)
    {α : Type} (x : FtpM α) : Prop :=
  Parallel (Twin reach outer holds toWrite) (fun _ => True) x

section Ends

theorem Twin.closedDisk (h : Twin reach outer holds toWrite ftp ftp') :
    Twins reach outer ftp.closedDisk ftp'.closedDisk := by
  have hcurrent : ftp'.currentFile = ftp.currentFile := by rw [h.same]
  unfold FtpSession.closedDisk
  rw [hcurrent]
  cases hfile : ftp.currentFile with
  | none => exact h.disks
  | some file => exact (File.parallel_close (h.file file hfile).within).after h.disks

theorem Twin.ended (h : Twin reach outer holds toWrite ftp ftp') (resetAbort : Bool) :
    Twin reach outer holds toWrite (ftp.ended resetAbort) (ftp'.ended resetAbort) :=
  ⟨by rw [h.same]; rfl, h.closedDisk, h.permissions, nofun⟩

theorem inStep_endTransfer (resetAbort : Bool) :
    InStep reach outer holds toWrite (endTransfer resetAbort) := by
  refine parallel_of_returns (returns_endTransfer resetAbort) fun ftp ftp' h => ?_
  rw [after_endTransfer, after_endTransfer]
  exact h.ended resetAbort

theorem inStep_resetFile : InStep reach outer holds toWrite resetFile := by
  refine parallel_of_returns returns_resetFile fun ftp ftp' h => ?_
  rw [after_resetFile, after_resetFile]
  exact ⟨by rw [h.same], h.closedDisk, h.permissions, nofun⟩

/-- The coroutine ends without a transfer. -/
theorem inStep_dropTransfer : InStep reach outer holds toWrite (do
    resetFile
    modifyState FtpState.resetTransfer
    modify fun ftp : FtpSession => { ftp with transferFile := none } : FtpM Unit) := by
  have hreturns : Returns (do
      resetFile
      modifyState FtpState.resetTransfer
      modify fun ftp : FtpSession => { ftp with transferFile := none } : FtpM Unit) :=
    returns_bind returns_resetFile fun _ =>
      returns_bind (returns_modifyState _) fun _ => returns_modify _
  refine parallel_of_returns hreturns fun ftp ftp' h => ?_
  rw [after_bind_of_returns returns_resetFile, after_bind_of_returns returns_resetFile,
    after_resetFile, after_resetFile]
  exact ⟨by rw [h.same]; rfl, h.closedDisk, h.permissions, nofun⟩

end Ends

section Coroutine

theorem inStep_wait {phase : TransferPhase}
    (hphase : toWrite = true ∨ ¬ TransferPhase.Receives (some phase)) :
    InStep reach outer holds toWrite (wait phase) := by
  refine parallel_modify fun ftp ftp' h => ⟨by rw [h.same], h.disks, h.permissions, ?_⟩
  intro file hfile
  refine (h.file file hfile).imp_right fun hsends => ⟨hsends.1, hsends.2.1, ?_, hsends.2.2.2⟩
  exact hphase.resolve_left (by simp [hsends.1])

theorem inStep_transferReply (reply : FtpReply) {phase : TransferPhase} {next : FtpM Unit}
    (hphase : toWrite = true ∨ ¬ TransferPhase.Receives (some phase))
    (hnext : InStep reach outer holds toWrite next) :
    InStep reach outer holds toWrite (transferReply reply phase next) := by
  refine parallel_look (fun _ _ => rfl) fun ftp _ _ => parallel_ite (fun _ => ?_) fun _ => hnext
  refine parallel_bind (parallel_unseen ?_) fun _ _ => inStep_wait hphase
  constructor <;> intros <;> rfl

theorem inStep_lastReply (resetAbort : Bool) (reply : FtpReply) :
    InStep reach outer holds toWrite (lastReply resetAbort reply) :=
  inStep_transferReply reply (.inr id) (inStep_endTransfer resetAbort)

theorem inStep_tryFile {body : FtpM Unit} (hbody : InStep reach outer holds toWrite body) :
    InStep reach outer holds toWrite (tryFile body) :=
  parallel_tryCatch hbody fun _ => inStep_lastReply _ _

theorem inStep_notifyFailed : InStep reach outer holds toWrite notifyFailed :=
  inStep_transferReply _ (.inr id) (inStep_endTransfer true)

theorem inStep_modifyState {f : FtpState → FtpState}
    (htransfer : ∀ state, (f state).transfer = state.transfer) :
    InStep reach outer holds toWrite (modifyState f) :=
  parallel_unseen ⟨fun _ _ => rfl, fun _ => rfl, fun _ => rfl, fun _ => rfl,
    fun ftp => htransfer ftp.state⟩

theorem inStep_notified : InStep reach outer holds toWrite notified := by
  refine parallel_getState fun state => parallel_ite (fun _ => ?_) fun _ => inStep_endTransfer true
  exact parallel_bind (inStep_modifyState fun _ => rfl) fun _ _ => inStep_lastReply _ _

theorem inStep_replyWritten (env : Env) (written : Bool) :
    InStep reach outer holds toWrite (replyWritten env written) := by
  refine parallel_of_returns (returns_replyWritten env written) fun ftp ftp' h => ?_
  have hunseen : Unseen (after (replyWritten env written)) := by
    constructor <;> intros <;> simp only [after_replyWritten] <;> cases written <;> rfl
  exact h.unseen hunseen

section Sending

/-- Reading leaves the file what it is. -/
theorem Uses.parallel_read {file : File} (h : Uses reach toWrite ftp file) (bytes : Nat) :
    Parallel (Twins reach outer) (fun result => Uses reach toWrite ftp result.2)
      (file.read bytes) :=
  (File.parallel_read h.within bytes).imp fun _ hsame =>
    h.imp hsame.writable fun hsends =>
      ⟨hsends.1, hsends.2.1, hsends.2.2.1, hsame.within hsends.2.2.2⟩

theorem Uses.parallel_close {file : File} (h : Uses reach toWrite ftp file) :
    Parallel (Twins reach outer) (Uses reach toWrite ftp) file.close :=
  (File.parallel_close h.within).imp fun _ hsame =>
    h.imp hsame.writable fun hsends =>
      ⟨hsends.1, hsends.2.1, hsends.2.2.1, hsame.within hsends.2.2.2⟩

theorem inStep_closeFile : InStep reach outer holds toWrite closeFile := by
  refine parallel_withFile fun file ftp huses => ?_
  refine parallel_bind huses.parallel_close fun file' hfile' => ?_
  exact parallel_pure hfile'

theorem inStep_nextBuffer (reads : Nat) : InStep reach outer holds toWrite (nextBuffer reads) := by
  induction reads with
  | zero => exact parallel_pure trivial
  | succ reads ih =>
      refine parallel_look (fun _ _ => rfl) fun ftp _ _ => ?_
      split
      · exact parallel_throw _
      · refine parallel_ite (fun _ => parallel_pure trivial) fun _ => ?_
        refine parallel_bind (parallel_withFile fun _ _ huses => huses.parallel_read 0) fun _ _ => ?_
        exact parallel_ite (fun _ => ih) fun _ => parallel_pure trivial

theorem inStep_sendLoop : InStep reach outer holds toWrite sendLoop := by
  refine parallel_look (fun _ _ => rfl) fun ftp _ _ => ?_
  refine parallel_bind (inStep_nextBuffer _) fun buffer _ => ?_
  cases buffer with
  | some buffer => exact inStep_wait (.inr id)
  | none => exact inStep_wait (.inr id)

theorem inStep_sendFile : InStep reach outer holds toWrite sendFile :=
  parallel_look (fun _ _ => rfl) fun _ _ _ =>
    parallel_ite (fun _ => inStep_sendLoop) fun _ => inStep_notifyFailed

theorem inStep_finishFile (text : Bytes) :
    InStep reach outer holds toWrite (finishFile text) := by
  refine parallel_bind (parallel_unseen (by constructor <;> intros <;> rfl)) fun _ _ => ?_
  refine parallel_bind inStep_closeFile fun _ _ => ?_
  exact parallel_getState fun _ => inStep_lastReply _ _

end Sending

section Receiving

/-- A file that may be written is given up by nothing that is done to it. -/
theorem parallel_withWritable {α : Type} {x : File → DiskM (α × File)}
    (hx : ∀ file : File, file.inner.Writable reach →
      Parallel (Twins reach outer) (fun result => result.2.inner.Writable reach) (x file)) :
    InStep reach outer holds true (withFile x) := by
  refine parallel_withFile fun file ftp huses => ?_
  exact (hx file (huses.resolve_right (by simp))).imp fun _ hfile => .inl hfile

theorem inStep_receiveLoop : InStep reach outer holds true receiveLoop := by
  refine parallel_bind (parallel_withWritable fun _ hfile => File.parallel_write hfile 0) ?_
  exact fun _ _ => inStep_wait (.inl rfl)

theorem inStep_setBytesWritten (count : Nat) :
    InStep reach outer holds true (FtpSession.setBytesWritten count) := by
  refine parallel_withWritable fun file hfile => ?_
  refine parallel_bind (File.parallel_setBytesWritten hfile count) fun file' hfile' => ?_
  exact parallel_pure hfile'

theorem inStep_storeFile (buffer : WriteBuffer) (read : Bytes) :
    InStep reach outer holds true (storeFile buffer read) := by
  refine parallel_withWritable fun file hfile => ?_
  refine parallel_bind (File.parallel_store hfile read buffer) fun file' hfile' => ?_
  exact parallel_pure hfile'

theorem inStep_receiveFile : InStep reach outer holds true receiveFile :=
  parallel_look (fun _ _ => rfl) fun _ _ _ =>
    parallel_ite (fun _ => inStep_receiveLoop) fun _ => inStep_notifyFailed

theorem inStep_commit (bytesRead : Nat) : InStep reach outer holds true (commit bytesRead) :=
  parallel_bind (inStep_setBytesWritten bytesRead) fun _ _ => inStep_receiveLoop

theorem inStep_received (env : Env) (buffer : WriteBuffer) (read : Bytes) :
    InStep reach outer holds true (received env buffer read) := by
  refine parallel_bind (inStep_storeFile buffer read) fun _ _ => ?_
  refine parallel_ite (fun _ => inStep_endTransfer true) fun _ => ?_
  refine parallel_look (fun _ _ => rfl) fun _ _ _ => ?_
  refine parallel_ite (fun _ => inStep_commit _) fun _ => ?_
  exact inStep_transferReply _ (.inl rfl) (inStep_commit _)

end Receiving

theorem inStep_transferData : InStep reach outer holds toWrite transferData := by
  have hget : transferData = get >>= fun ftp : FtpSession =>
      tryFile (if ftp.state.transfer = .outgoing then sendFile else receiveFile) := rfl
  rw [hget]
  refine parallel_look_at (fun _ _ => rfl) fun ftp ftp' h => ?_
  by_cases hout : ftp.state.transfer = .outgoing
  · rw [if_pos hout]
    exact inStep_tryFile inStep_sendFile ftp ftp' h
  · rw [if_neg hout]
    exact (inStep_tryFile inStep_receiveFile).of_stronger (fun _ _ => Twin.weaken)
      (h.strengthen (.inl hout))

theorem inStep_connected : InStep reach outer holds toWrite connected := by
  refine parallel_bind (parallel_unseen (by constructor <;> intros <;> rfl)) fun _ _ => ?_
  exact parallel_getState fun _ =>
    parallel_ite (fun _ => inStep_wait (.inr id)) fun _ => inStep_transferData

theorem inStep_announced (env : Env) : InStep reach outer holds toWrite (announced env) := by
  refine parallel_look (fun _ _ => rfl) fun ftp _ _ => ?_
  refine parallel_ite (fun _ => inStep_dropTransfer) fun _ => ?_
  refine parallel_ite (fun _ => inStep_wait (.inr id)) fun _ => ?_
  refine parallel_bind (parallel_unseen (by constructor <;> intros <;> rfl)) fun _ _ => ?_
  exact inStep_wait (.inr id)

/-- **The transfer coroutine** does the same in both sessions. -/
theorem inStep_resume (env : Env) (answer : Answer) :
    InStep reach outer holds toWrite (resume env answer) := by
  refine parallel_look_at (fun _ _ => rfl) fun ftp ftp' h => ?_
  cases hphase : ftp.transferFile with
  | none => exact parallel_pure trivial ftp ftp' h
  | some phase =>
      -- behind a read the file may be written, whatever is known of it otherwise
      have hreceives {x : FtpM Unit} (hx : InStep reach outer holds true x)
          (hreceiving : TransferPhase.Receives (some phase)) :
          ParallelAt (Twin reach outer holds toWrite) (fun _ => True) x ftp ftp' :=
        hx.of_stronger (fun _ _ => Twin.weaken) (h.strengthen (.inr (hphase ▸ hreceiving)))
      have hends : InStep reach outer holds toWrite cantOpenDataConn := inStep_lastReply _ _
      cases phase with
      | spawned => exact inStep_transferReply _ (.inr id) (inStep_announced env) ftp ftp' h
      | announcing =>
          exact parallel_bind (inStep_replyWritten env _) (fun _ _ => inStep_announced env) ftp ftp' h
      | connecting =>
          exact parallel_ite (fun _ => inStep_connected) (fun _ => hends) ftp ftp' h
      | accepting =>
          exact parallel_ite (fun _ => inStep_connected) (fun _ => hends) ftp ftp' h
      | handshaking =>
          exact parallel_ite (fun _ => inStep_transferData) (fun _ => hends) ftp ftp' h
      | sending buffer =>
          refine parallel_ite (fun _ => ?_) (fun _ => inStep_tryFile inStep_notifyFailed) ftp ftp' h
          refine parallel_bind (parallel_unseen (by constructor <;> intros <;> rfl)) fun _ _ => ?_
          exact parallel_ite (fun _ => inStep_endTransfer true)
            fun _ => inStep_tryFile inStep_sendLoop
      | receiving buffer =>
          cases answer with
          | data read => exact hreceives (inStep_tryFile (inStep_received env buffer read)) trivial
          | eof =>
              refine hreceives (inStep_tryFile ?_) trivial
              exact parallel_bind (inStep_setBytesWritten 0) fun _ _ => inStep_wait (.inr id)
          | done => exact inStep_tryFile inStep_notifyFailed ftp ftp' h
          | failed => exact inStep_tryFile inStep_notifyFailed ftp ftp' h
      | warning bytesRead =>
          refine hreceives (parallel_bind (inStep_replyWritten env _) fun _ _ => ?_) trivial
          exact inStep_tryFile (inStep_commit bytesRead)
      | shuttingDown transfer =>
          refine parallel_ite (fun _ => inStep_tryFile (inStep_finishFile _)) (fun _ => ?_) ftp ftp' h
          exact parallel_ite (fun _ => inStep_tryFile (inStep_finishFile _))
            fun _ => inStep_tryFile inStep_notifyFailed
      | notifying =>
          exact parallel_bind (inStep_replyWritten env _) (fun _ _ => inStep_notified) ftp ftp' h
      | ending resetAbort =>
          exact parallel_bind (inStep_replyWritten env _) (fun _ _ => inStep_endTransfer resetAbort)
            ftp ftp' h

end Coroutine

end FtpSession

end Wfde
