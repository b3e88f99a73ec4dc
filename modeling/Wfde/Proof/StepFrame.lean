import Wfde.Proof.HandlerFrame

/-!
# What the steps of a session leave alone

The transfer coroutine and the command loop, and what an event does to the part of the state that
the handlers share. The invariants of runs are derived from this.
-/

namespace Wfde

open Effect

namespace FtpSession

section Transfer

/-- What a relation has to allow for the transfer coroutine, but for the end of its replies. -/
structure TransferFrame (r : FtpSession → FtpSession → Prop) : Prop where
  disk : ∀ ftp disk, r ftp { ftp with disk }
  currentFile : ∀ ftp currentFile, r ftp { ftp with currentFile }
  transferFile : ∀ ftp transferFile, r ftp { ftp with transferFile }
  transferSck : ∀ ftp transferSck, r ftp { ftp with transferSck }
  abortTransfer : ∀ ftp abortTransfer, r ftp { ftp with abortTransfer }
  replies : ∀ ftp replies, r ftp { ftp with replies }
  sent : ∀ ftp sent, r ftp { ftp with sent }
  resetTransfer : ∀ ftp, r ftp { ftp with state := ftp.state.resetTransfer }
  abortPending : ∀ ftp, r ftp { ftp with state := { ftp.state with abortPending := false } }

namespace TransferFrame

variable {r : FtpSession → FtpSession → Prop} (h : TransferFrame r)
include h

theorem mono {r' : FtpSession → FtpSession → Prop} (hmono : ∀ before after, r before after →
    r' before after) : TransferFrame r' where
  disk ftp disk := hmono _ _ (h.disk ftp disk)
  currentFile ftp currentFile := hmono _ _ (h.currentFile ftp currentFile)
  transferFile ftp transferFile := hmono _ _ (h.transferFile ftp transferFile)
  transferSck ftp transferSck := hmono _ _ (h.transferSck ftp transferSck)
  abortTransfer ftp abortTransfer := hmono _ _ (h.abortTransfer ftp abortTransfer)
  replies ftp replies := hmono _ _ (h.replies ftp replies)
  sent ftp sent := hmono _ _ (h.sent ftp sent)
  resetTransfer ftp := hmono _ _ (h.resetTransfer ftp)
  abortPending ftp := hmono _ _ (h.abortPending ftp)

theorem wait (phase : TransferPhase) : Keeps r (wait phase) :=
  keeps_modify fun ftp => h.transferFile ftp _

theorem onDisk {α : Type} (x : DiskM α) : Keeps r (onDisk x) := by
  intro ftp
  rw [after_onDisk]
  exact h.disk ftp _

variable [Std.Refl r] [IsTrans FtpSession r]

theorem withFile {α : Type} (x : File → DiskM (α × File)) : Keeps r (withFile x) := by
  refine keeps_bind keeps_get fun ftp => ?_
  split
  · exact keeps_throw _
  · refine keeps_bind (h.onDisk _) fun result => ?_
    exact keeps_bind (keeps_modify fun ftp => h.currentFile ftp _) fun _ => keeps_pure _

theorem resetFile : Keeps r resetFile := by
  refine keeps_bind keeps_get fun ftp => ?_
  cases ftp.currentFile with
  | none => exact keeps_pure _
  | some file =>
      refine keeps_bind (keeps_modify fun ftp => h.currentFile ftp _) fun _ => ?_
      exact keeps_bind (keeps_tryCatch (h.onDisk _) fun _ => keeps_pure _) fun _ => keeps_pure _

theorem transferReply (reply : FtpReply) (phase : TransferPhase) {next : FtpM Unit}
    (hnext : Keeps r next) : Keeps r (transferReply reply phase next) := by
  refine keeps_bind keeps_get fun ftp => keeps_ite ?_ hnext
  exact keeps_bind (keeps_modify fun ftp => h.replies ftp _) fun _ => h.wait phase

theorem cleanupTransfer : Keeps r cleanupTransfer := by
  refine keeps_bind (keeps_modify fun ftp => h.transferSck ftp _) fun _ => ?_
  exact keeps_bind h.resetFile fun _ => keeps_modifyState h.resetTransfer

theorem endTransfer (resetAbort : Bool) : Keeps r (endTransfer resetAbort) := by
  have hend : Keeps r (do
      FtpSession.cleanupTransfer
      modify fun ftp : FtpSession => { ftp with transferFile := none }) :=
    keeps_bind h.cleanupTransfer fun _ => keeps_modify fun ftp => h.transferFile ftp _
  exact keeps_ite (keeps_bind (keeps_modify fun ftp => h.abortTransfer ftp _) fun _ => hend) hend

theorem lastReply (resetAbort : Bool) (reply : FtpReply) : Keeps r (lastReply resetAbort reply) :=
  h.transferReply _ _ (h.endTransfer resetAbort)

theorem tryFile {body : FtpM Unit} (hbody : Keeps r body) : Keeps r (tryFile body) :=
  keeps_tryCatch hbody fun _ => h.lastReply _ _

theorem notifyFailed : Keeps r notifyFailed := h.transferReply _ _ (h.endTransfer true)

theorem notified : Keeps r notified := by
  refine keeps_bind keeps_getState fun state => ?_
  refine keeps_ite ?_ (h.endTransfer true)
  exact keeps_bind (keeps_modifyState h.abortPending) fun _ => h.lastReply _ _

theorem nextBuffer (reads : Nat) : Keeps r (nextBuffer reads) := by
  induction reads with
  | zero => exact keeps_pure _
  | succ reads ih =>
      refine keeps_bind keeps_get fun ftp => ?_
      split
      · exact keeps_throw _
      · refine keeps_ite (keeps_pure _) (keeps_bind (h.withFile _) fun buffer => ?_)
        exact keeps_ite ih (keeps_pure _)

theorem sendLoop : Keeps r sendLoop := by
  refine keeps_bind keeps_get fun ftp => keeps_bind (h.nextBuffer _) fun buffer => ?_
  split
  · exact h.wait _
  · exact h.wait _

theorem receiveLoop : Keeps r receiveLoop := keeps_bind (h.withFile _) fun _ => h.wait _

theorem commit (bytesRead : Nat) : Keeps r (commit bytesRead) :=
  keeps_bind (h.withFile _) fun _ => h.receiveLoop

theorem received (env : Env) (buffer : WriteBuffer) (read : Bytes) :
    Keeps r (received env buffer read) := by
  refine keeps_bind (h.withFile _) fun _ => keeps_ite (h.endTransfer true) ?_
  refine keeps_bind keeps_get fun ftp => keeps_ite (h.commit _) ?_
  exact h.transferReply _ _ (h.commit _)

theorem finishFile (text : Bytes) : Keeps r (finishFile text) := by
  refine keeps_bind (keeps_modify fun ftp => h.transferSck ftp _) fun _ => ?_
  refine keeps_bind (h.withFile _) fun _ => keeps_bind keeps_getState fun state => ?_
  exact h.lastReply _ _

theorem transferData : Keeps r transferData := by
  refine keeps_bind keeps_getState fun state => ?_
  apply h.tryFile
  refine keeps_ite ?_ ?_
  · exact keeps_bind keeps_get fun _ => keeps_ite h.sendLoop h.notifyFailed
  · exact keeps_bind keeps_get fun _ => keeps_ite h.receiveLoop h.notifyFailed

theorem connected : Keeps r connected := by
  have hopened : Keeps r (modify fun ftp : FtpSession =>
      { ftp with abortTransfer := some .transferSocket, transferSck := some true } : FtpM Unit) :=
    keeps_modify fun ftp =>
      IsTrans.trans _ _ _ (h.abortTransfer ftp (some .transferSocket)) (h.transferSck _ _)
  refine keeps_bind hopened fun _ => keeps_bind keeps_getState fun state => ?_
  exact keeps_ite (h.wait _) h.transferData

theorem announced (env : Env) : Keeps r (announced env) := by
  refine keeps_bind keeps_get fun ftp => keeps_ite ?_ (keeps_ite (h.wait _) ?_)
  · refine keeps_bind h.resetFile fun _ => keeps_bind (keeps_modifyState h.resetTransfer) fun _ => ?_
    exact keeps_modify fun ftp => h.transferFile ftp _
  · exact keeps_bind (keeps_modify fun ftp => h.abortTransfer ftp _) fun _ => h.wait _

/-- **What the transfer coroutine changes.** It is what the frame lists and what the end of a reply
changes. -/
theorem resume {env : Env} (hwritten : ∀ written, Keeps r (replyWritten env written))
    (answer : Answer) : Keeps r (resume env answer) := by
  refine keeps_bind keeps_get fun ftp => ?_
  split
  · exact keeps_pure _
  · exact h.transferReply _ _ (h.announced env)
  · exact keeps_bind (hwritten _) fun _ => h.announced env
  · exact keeps_ite h.connected (h.lastReply _ _)
  · exact keeps_ite h.connected (h.lastReply _ _)
  · exact keeps_ite h.transferData (h.lastReply _ _)
  · refine keeps_ite ?_ (h.tryFile h.notifyFailed)
    refine keeps_bind (keeps_modify fun ftp => h.sent ftp _) fun _ => ?_
    exact keeps_ite (h.endTransfer true) (h.tryFile h.sendLoop)
  · split
    · exact h.tryFile (h.received env _ _)
    · exact h.tryFile (keeps_bind (h.withFile _) fun _ => h.wait _)
    · exact h.tryFile h.notifyFailed
  · exact keeps_bind (hwritten _) fun _ => h.tryFile (h.commit _)
  · refine keeps_ite (h.tryFile (h.finishFile _)) ?_
    exact keeps_ite (h.tryFile (h.finishFile _)) (h.tryFile h.notifyFailed)
  · exact keeps_bind (hwritten _) fun _ => h.notified
  · exact keeps_bind (hwritten _) fun _ => h.endTransfer _

end TransferFrame

theorem sameCore_transfer : TransferFrame SameCore := by
  constructor <;> intros <;> rfl

/-- Outside the tasks that wait for a reply the transfer coroutine leaves the core alone. -/
theorem keeps_resume {r : FtpSession → FtpSession → Prop} [Std.Refl r] [IsTrans FtpSession r]
    (hcore : ∀ before after, SameCore before after → r before after) {env : Env}
    (hwritten : ∀ written, Keeps r (replyWritten env written)) (answer : Answer) :
    Keeps r (resume env answer) :=
  (sameCore_transfer.mono hcore).resume hwritten answer

end Transfer

section Replies

variable (env : Env)

/-- A reply that has been written may change the tasks of the core and whether the control
connection is encrypted. -/
def SameButTasks (before after : FtpSession) : Prop :=
  after.core = { before.core with
    tasks := after.state.tasksPendingAfterReply, ccIsEncrypted := after.state.ccIsEncrypted }

instance : Std.Refl SameButTasks := ⟨fun _ => rfl⟩

instance : IsTrans FtpSession SameButTasks :=
  ⟨fun _ _ _ hab hbc => by unfold SameButTasks at *; rw [hbc, hab]⟩

theorem SameCore.sameButTasks {before after : FtpSession} (h : SameCore before after) :
    SameButTasks before after := by
  have htasks := congrArg Core.tasks h
  have hencrypted := congrArg Core.ccIsEncrypted h
  unfold SameButTasks
  rw [h]
  exact congrArg₂ (fun tasks encrypted =>
    { before.core with tasks := tasks, ccIsEncrypted := encrypted }) htasks.symm hencrypted.symm

theorem returns_modifyState (f : FtpState → FtpState) : Returns (modifyState f) := returns_modify _

theorem SameButTasks.control {before after : FtpSession} (h : SameButTasks before after) :
    after.control = before.control := congrArg Core.control h

theorem after_runTasks (tasks : List PendingTask) (ftp : FtpSession) :
    after (tasks.forM (runTask env)) ftp
      = { ftp with
          socketOpen := ftp.socketOpen && (tasks.isEmpty || env.handshake)
          state := { ftp.state with
            ccIsEncrypted := ftp.state.ccIsEncrypted || (!tasks.isEmpty && env.handshake) } } := by
  induction tasks generalizing ftp with
  | nil => simp [after, EStateM.run_pure]
  | cons task tasks ih =>
      cases task with
      | startTls =>
          have htls : Returns (runTask env .startTls) :=
            returns_ite (returns_modify _) (returns_modify _)
          change after (runTask env .startTls >>= fun _ => tasks.forM (runTask env)) ftp = _
          rw [after_bind_of_returns htls, ih]
          by_cases hhandshake : env.handshake = true
          · have hone : after (runTask env .startTls) ftp
                = { ftp with state := { ftp.state with ccIsEncrypted := true } } := by
              unfold runTask startTls
              rw [if_pos hhandshake]
              rfl
            simp [hone, hhandshake]
          · have hone : after (runTask env .startTls) ftp = { ftp with socketOpen := false } := by
              unfold runTask startTls
              rw [if_neg hhandshake]
              rfl
            simp [hone, hhandshake]

theorem after_replyWritten (written : Bool) (ftp : FtpSession) :
    after (replyWritten env written) ftp
      = if written then
          { ftp with
            socketOpen :=
              ftp.socketOpen && (ftp.state.tasksPendingAfterReply.isEmpty || env.handshake)
            state := { ftp.state with
              tasksPendingAfterReply := []
              ccIsEncrypted := ftp.state.ccIsEncrypted
                || (!ftp.state.tasksPendingAfterReply.isEmpty && env.handshake) } }
        else { ftp with replyFailed := true } := by
  cases written with
  | true =>
      have hstate : getState.run ftp = .ok ftp.state ftp := rfl
      unfold replyWritten
      rw [if_pos rfl, if_pos rfl, after_bind_of_ok hstate]
      dsimp only
      rw [after_bind_of_returns (returns_modifyState _), after_runTasks]
      rfl
  | false => rfl

theorem keeps_replyWritten (written : Bool) : Keeps SameButTasks (replyWritten env written) := by
  intro ftp
  rw [after_replyWritten]
  cases written with
  | true => rfl
  | false => rfl

theorem returns_replyWritten (written : Bool) : Returns (replyWritten env written) := by
  refine returns_ite (returns_bind ?_ fun state => ?_) (returns_modify _)
  · exact returns_bind returns_get fun _ => returns_pure _
  · refine returns_bind (returns_modify _) fun _ => returns_forM (fun task => ?_) _
    cases task with
    | startTls => exact returns_ite (returns_modify _) (returns_modify _)

end Replies

section Loop

variable (env : Env)

/-- What a transfer works on. -/
structure Work where
  transferFile : Option TransferPhase
  currentFile : Option File
  disk : Disk
  sent : Bytes
  transfer : Transfer
  rest : Nat

def work (ftp : FtpSession) : Work where
  transferFile := ftp.transferFile
  currentFile := ftp.currentFile
  disk := ftp.disk
  sent := ftp.sent
  transfer := ftp.state.transfer
  rest := ftp.state.rest

theorem work_replyWritten (written : Bool) (ftp : FtpSession) :
    (after (replyWritten env written) ftp).work = ftp.work := by
  rw [after_replyWritten]
  cases written with
  | true => rfl
  | false => rfl

/-- What the command loop leaves alone on its way to the next command. -/
structure SameLoop (before after : FtpSession) : Prop where
  core : after.core = { before.core with
    control := after.control, closePending := after.closePending }
  work : after.work = before.work

instance : Std.Refl SameLoop := ⟨fun _ => ⟨rfl, rfl⟩⟩

instance : IsTrans FtpSession SameLoop :=
  ⟨fun _ _ _ hab hbc =>
    ⟨by rw [hbc.core, hab.core], hbc.work.trans hab.work⟩⟩

theorem SameLoop.transferFile {before after : FtpSession} (h : SameLoop before after) :
    after.transferFile = before.transferFile := congrArg Work.transferFile h.work

theorem SameLoop.disk {before after : FtpSession} (h : SameLoop before after) :
    after.disk = before.disk := congrArg Work.disk h.work

/-- What a relation has to allow for the command loop. -/
structure LoopFrame (r : FtpSession → FtpSession → Prop) : Prop where
  control : ∀ ftp control, r ftp { ftp with control }
  closePending : ∀ ftp, r ftp { ftp with closePending := true }
  socketOpen : ∀ ftp, r ftp { ftp with socketOpen := false }
  closed : ∀ ftp, r ftp { ftp with closed := true }
  replies : ∀ ftp replies, r ftp { ftp with replies }
  abortTransfer : ∀ ftp, r ftp { ftp with abortTransfer := none }
  acceptor : ∀ ftp, r ftp { ftp with
    state := { ftp.state with
      pasv := ftp.state.pasv.map fun pasv => { pasv with listening := false } } }
  transferSck : ∀ ftp, r ftp { ftp with transferSck := ftp.transferSck.map fun _ => false }

theorem sameLoop_frame : LoopFrame SameLoop where
  control _ _ := ⟨rfl, rfl⟩
  closePending _ := ⟨rfl, rfl⟩
  socketOpen _ := ⟨rfl, rfl⟩
  closed _ := ⟨rfl, rfl⟩
  replies _ _ := ⟨rfl, rfl⟩
  abortTransfer _ := ⟨rfl, rfl⟩
  acceptor _ := ⟨rfl, rfl⟩
  transferSck _ := ⟨rfl, rfl⟩

/-- What a relation has to allow for the parts of the loop that do not reply. -/
structure SilentFrame (r : FtpSession → FtpSession → Prop) : Prop where
  control : ∀ ftp control, r ftp { ftp with control }
  closePending : ∀ ftp, r ftp { ftp with closePending := true }
  socketOpen : ∀ ftp, r ftp { ftp with socketOpen := false }
  closed : ∀ ftp, r ftp { ftp with closed := true }
  acceptor : ∀ ftp, r ftp { ftp with
    state := { ftp.state with
      pasv := ftp.state.pasv.map fun pasv => { pasv with listening := false } } }
  transferSck : ∀ ftp, r ftp { ftp with transferSck := ftp.transferSck.map fun _ => false }

namespace SilentFrame

variable {r : FtpSession → FtpSession → Prop} [Std.Refl r] [IsTrans FtpSession r]
  (h : SilentFrame r)
include h

theorem callAbort : Keeps r callAbort := by
  refine keeps_bind keeps_get fun ftp => ?_
  split
  · exact keeps_pure _
  · exact keeps_modify h.acceptor
  · exact keeps_modify h.transferSck

omit [Std.Refl r] in
theorem close : Keeps r close := fun ftp =>
  IsTrans.trans ftp { ftp with closePending := true } _ (h.closePending ftp) (h.socketOpen _)

theorem doClose : Keeps r (doClose env) := by
  refine keeps_bind keeps_get fun ftp => keeps_ite ?_ (keeps_pure _)
  refine keeps_bind h.close fun _ => keeps_bind (keeps_modify h.closed) fun _ => ?_
  exact keeps_ite h.callAbort (keeps_pure _)

theorem leaveLoop : Keeps r (leaveLoop env) :=
  keeps_bind (h.doClose env) fun _ => keeps_modify fun ftp => h.control ftp _

theorem nextCommand : Keeps r (nextCommand env) := by
  refine keeps_bind keeps_get fun ftp => ?_
  exact keeps_ite (keeps_modify fun ftp => h.control ftp _) (h.leaveLoop env)

theorem afterReply (next : AfterReply) : Keeps r (afterReply env next) := by
  cases next with
  | loop => exact h.nextCommand env
  | endSession => exact keeps_bind h.close fun _ => h.nextCommand env
  | closePending => exact keeps_bind (keeps_modify h.closePending) fun _ => h.nextCommand env
  | leave => exact h.leaveLoop env

end SilentFrame

namespace LoopFrame

variable {r : FtpSession → FtpSession → Prop} [Std.Refl r] [IsTrans FtpSession r]
  (h : LoopFrame r)
include h

omit [Std.Refl r] [IsTrans FtpSession r] in
theorem silent : SilentFrame r where
  control := h.control
  closePending := h.closePending
  socketOpen := h.socketOpen
  closed := h.closed
  acceptor := h.acceptor
  transferSck := h.transferSck

theorem controlReply (reply : FtpReply) (next : AfterReply) :
    Keeps r (controlReply env reply next) := by
  refine keeps_bind keeps_get fun ftp => keeps_ite (keeps_modify fun ftp => ?_) (h.silent.afterReply env next)
  exact IsTrans.trans ftp { ftp with replies := ftp.replies ++ [reply] } _ (h.replies ftp _)
    (h.control _ _)

theorem handled (cmd : FtpCmd) (reply : Option FtpReply) (ftp : FtpSession) :
    r { ftp with prevCmdName := some cmd } (after (handled env cmd reply) ftp) := by
  unfold FtpSession.handled
  rw [after_bind_of_returns (returns_modify _)]
  change r _ (after _ { ftp with prevCmdName := some cmd })
  have hstate (ftp : FtpSession) : getState.run ftp = .ok ftp.state ftp := rfl
  cases reply with
  | some reply => exact h.controlReply env _ _ _
  | none =>
      rw [after_bind_of_ok (hstate _)]
      refine keeps_ite (keeps_bind h.silent.callAbort fun _ => ?_) (h.silent.nextCommand env) _
      exact keeps_bind (keeps_modify h.abortTransfer) fun _ => h.silent.nextCommand env

end LoopFrame

theorem returns_doClose : Returns (doClose env) := by
  refine returns_bind returns_get fun ftp => returns_ite ?_ (returns_pure _)
  refine returns_bind (returns_modify _) fun _ => returns_bind (returns_modify _) fun _ => ?_
  refine returns_ite (returns_bind returns_get fun ftp => ?_) (returns_pure _)
  split
  · exact returns_pure _
  · exact returns_modify _
  · exact returns_modify _

theorem control_leaveLoop (ftp : FtpSession) : (after (leaveLoop env) ftp).control = .ended := by
  unfold leaveLoop
  rw [after_bind_of_returns (returns_doClose env)]
  rfl

theorem control_nextCommand (ftp : FtpSession) :
    (after (nextCommand env) ftp).control = .fetching ∧ ftp.closePending = false
      ∧ ftp.canReply = true
      ∨ (after (nextCommand env) ftp).control = .ended := by
  unfold nextCommand
  rw [after_bind_of_ok (EStateM.run_get ftp)]
  by_cases hgo : (!ftp.replyFailed && !ftp.closePending && !env.expired && ftp.socketOpen) = true
  · rw [if_pos hgo]
    simp only [Bool.and_eq_true, Bool.not_eq_true'] at hgo
    exact .inl ⟨rfl, hgo.1.1.2, by simp [canReply, hgo]⟩
  · rw [if_neg hgo]
    exact .inr (control_leaveLoop env ftp)

theorem control_afterReply (next : AfterReply) (ftp : FtpSession) :
    (after (afterReply env next) ftp).control = .fetching ∧ next = .loop ∧ ftp.canReply = true
      ∨ (after (afterReply env next) ftp).control = .ended := by
  cases next with
  | loop => exact (control_nextCommand env ftp).imp_left fun h => ⟨h.1, rfl, h.2.2⟩
  | endSession =>
      change (after (nextCommand env) _).control = _ ∧ _ ∨ _
      exact (control_nextCommand env _).imp_left fun h => absurd h.2.1 (by simp)
  | closePending =>
      exact (control_nextCommand env _).imp_left fun h => absurd h.2.1 (by simp)
  | leave => exact .inr (control_leaveLoop env ftp)

theorem control_controlReply (reply : FtpReply) (next : AfterReply) (ftp : FtpSession) :
    (after (controlReply env reply next) ftp).control = .replying next
      ∨ (after (controlReply env reply next) ftp).control = .ended := by
  unfold controlReply
  rw [after_bind_of_ok (EStateM.run_get ftp)]
  by_cases hcan : ftp.canReply = true
  · rw [if_pos hcan]
    exact .inl rfl
  · rw [if_neg hcan]
    exact .inr ((control_afterReply env next ftp).resolve_left fun h => hcan h.2.2)

end Loop

section Step

variable {ftp : FtpSession}

theorem dispatch_eq_handle {env : Env} {request param : Bytes} {cmd : FtpCmd}
    (h : ftp.dispatch env request = .handle cmd param) :
    getFtpCommand request = .ok cmd ∧ env.expired = false ∧ ftp.refusal cmd = none
      ∧ param = paramOf cmd request ∧ cmd.getSyntax.matches param = true := by
  unfold dispatch at h
  split at h
  · cases h
  · split at h
    · cases h
    · split at h
      · cases h
      · dsimp only at h
        split at h
        · cases h
          refine ⟨‹_›, by simpa using ‹¬ env.expired = true›, ‹_›, rfl, ‹_›⟩
        · cases h

theorem handlerOf_of_dispatch {env : Env} {line : Bytes} {cmd : FtpCmd} {param : Bytes}
    (hcontrol : ftp.control = .fetching) (hdispatch : ftp.dispatch env line = .handle cmd param) :
    ftp.handlerOf (.request env line) = some ⟨env, cmd, param, ftp⟩ := by
  rw [handlerOf, if_pos hcontrol, hdispatch]

theorem handlerOf_eq_some {event : Event} {entry : Handled}
    (h : ftp.handlerOf event = some entry) :
    ∃ line, event = .request entry.env line ∧ entry.before = ftp ∧ ftp.control = .fetching
      ∧ ftp.dispatch entry.env line = .handle entry.cmd entry.param := by
  cases event with
  | request env line =>
      by_cases hcontrol : ftp.control = .fetching
      · rw [handlerOf, if_pos hcontrol] at h
        cases hdispatch : ftp.dispatch env line with
        | handle cmd param =>
            rw [hdispatch] at h
            obtain rfl := Option.some.inj h
            exact ⟨line, rfl, rfl, hcontrol, hdispatch⟩
        | ignore => simp [hdispatch] at h
        | refuse reply => simp [hdispatch] at h
      · rw [handlerOf, if_neg hcontrol] at h
        cases h
  | _ => cases h

/-- What the checks of `OnCommand` leave. -/
structure Accepts (ftp : FtpSession) (cmd : FtpCmd) : Prop where
  prevCmd : ∀ prev, cmd.needPrevCmd = some prev → ftp.prevCmdName = some prev
  loggedIn : cmd.mustBeLoggedIn = true → ftp.state.isLoggedIn = true
  notLoggedIn : cmd.mustNotBeLoggedIn = true → ftp.state.isLoggedIn = false
  inTransfer : cmd.mustBeInTransfer = true → ftp.state.isInTransfer = true
  notInTransfer : cmd.mustNotBeInTransfer = true → ftp.state.isInTransfer = false
  pasvOrPost : cmd.needPostOrPasv = true → ftp.state.havePasvOrPost = true
  encrypted : cmd.mustHaveEncryption = true → ftp.state.ccIsEncrypted = true

theorem accepts_of_refusal {cmd : FtpCmd} (h : ftp.refusal cmd = none) : Accepts ftp cmd := by
  unfold refusal at h
  simp only [ite_eq_iff, reduceCtorEq, and_false, false_or, and_true] at h
  obtain ⟨hprev, hlogin, hnot, hin, hnotIn, hpasv, hencrypted⟩ := h
  constructor
  · intro prev hneed
    simpa [hneed] using hprev
  all_goals simp_all

theorem accepts_of_handlerOf {event : Event} {entry : Handled}
    (h : ftp.handlerOf event = some entry) : Accepts ftp entry.cmd := by
  obtain ⟨line, -, -, -, hdispatch⟩ := handlerOf_eq_some h
  exact accepts_of_refusal (dispatch_eq_handle hdispatch).2.2.1

theorem after_handle (env : Env) (cmd : FtpCmd) (param : Bytes) (ftp : FtpSession) :
    after (handle env cmd param) ftp
      = match (Handled.mk env cmd param ftp).result with
        | .ok reply left => after (handled env cmd reply) left
        | .error _ left => after (controlReply env
            { code := .bye, message := bytes "Internal server error" } .closePending) left := by
  cases hrun : cmd.onCmd env param { ftp with calls := [] } <;>
    simp only [after, handle, EStateM.run, Handled.result, Handled.start, hrun]

theorem after_processRequest (env : Env) (line : Bytes) (ftp : FtpSession) :
    after (processRequest env line) ftp
      = match ftp.dispatch env line with
        | .ignore => after (nextCommand env) ftp
        | .refuse reply => after (controlReply env reply .loop) ftp
        | .handle cmd param => after (handle env cmd param) ftp := by
  unfold processRequest
  rw [after_bind_of_ok (EStateM.run_get ftp)]
  cases ftp.dispatch env line <;> rfl

theorem step_of_handlerOf {event : Event} {entry : Handled}
    (h : ftp.handlerOf event = some entry) :
    ftp.step event = after (handle entry.env entry.cmd entry.param) entry.before := by
  obtain ⟨line, rfl, hbefore, hcontrol, hdispatch⟩ := handlerOf_eq_some h
  rw [step, if_pos hcontrol, hbefore, after_processRequest, hdispatch]

theorem step_written {env : Env} {ok : Bool} {next : AfterReply}
    (hcontrol : ftp.control = .replying next) :
    ftp.step (.written env ok) = after (do
      replyWritten env ok
      afterReply env next) ftp := by
  simp only [step, hcontrol]

/-- What a step can be: the part of a coroutine that runs, and what it has waited for. -/
inductive StepCase (ftp : FtpSession) (event : Event) : Prop
  | idle (hstep : ftp.step event = ftp)
  | leaves (env : Env) (hstep : ftp.step event = after (leaveLoop env) ftp)
  | replies (env : Env) (reply : FtpReply) (next : AfterReply)
      (hcontrol : ftp.control = .created ∨ ftp.control = .fetching)
      (hstep : ftp.step event = after (controlReply env reply next) ftp)
  | ignores (env : Env) (hcontrol : ftp.control = .fetching)
      (hstep : ftp.step event = after (nextCommand env) ftp)
  | handles (entry : Handled) (hcontrol : ftp.control = .fetching)
      (hhandler : ftp.handlerOf event = some entry) (hbefore : entry.before = ftp)
      (hstep : ftp.step event = after (handle entry.env entry.cmd entry.param) ftp)
  | written (env : Env) (ok : Bool) (next : AfterReply) (hcontrol : ftp.control = .replying next)
      (hstep : ftp.step event = after (afterReply env next) (after (replyWritten env ok) ftp))
  | resumes (env : Env) (answer : Answer) (hevent : event = .transfer env answer)
      (hstep : ftp.step event = after (resume env answer) ftp)

theorem step_cases (ftp : FtpSession) (event : Event) : StepCase ftp event := by
  cases event with
  | start env =>
      by_cases hcontrol : ftp.control = .created
      · have hstep : ftp.step (.start env) = after (processCommands env) ftp := if_pos hcontrol
        by_cases hexpired : env.expired = true
        · rw [processCommands, if_pos hexpired] at hstep
          exact .leaves env hstep
        · rw [processCommands, if_neg hexpired] at hstep
          exact .replies env _ _ (.inl hcontrol) hstep
      · exact .idle (if_neg hcontrol)
  | request env line =>
      by_cases hcontrol : ftp.control = .fetching
      · have hstep : ftp.step (.request env line) = after (processRequest env line) ftp :=
          if_pos hcontrol
        rw [after_processRequest] at hstep
        cases hdispatch : ftp.dispatch env line with
        | ignore =>
            rw [hdispatch] at hstep
            exact .ignores env hcontrol hstep
        | refuse reply =>
            rw [hdispatch] at hstep
            exact .replies env reply _ (.inr hcontrol) hstep
        | handle cmd param =>
            have hhandler := handlerOf_of_dispatch hcontrol hdispatch
            exact .handles _ hcontrol hhandler rfl (step_of_handlerOf hhandler)
      · exact .idle (if_neg hcontrol)
  | inputTooBig env =>
      by_cases hcontrol : ftp.control = .fetching
      · exact .replies env _ _ (.inr hcontrol) (if_pos hcontrol)
      · exact .idle (if_neg hcontrol)
  | noInput env =>
      by_cases hcontrol : ftp.control = .fetching
      · exact .leaves env (if_pos hcontrol)
      · exact .idle (if_neg hcontrol)
  | written env ok =>
      cases hcontrol : ftp.control with
      | replying next =>
          refine .written env ok next hcontrol ?_
          rw [step_written hcontrol, after_bind_of_returns (returns_replyWritten env ok)]
      | _ => exact .idle (by simp only [step, hcontrol])
  | transfer env answer => exact .resumes env answer rfl rfl

section Rule

variable {r : FtpSession → FtpSession → Prop} [Std.Refl r] [IsTrans FtpSession r]

/-- **Steps with a handler.** The loop goes on from what the handler has left. -/
theorem LoopFrame.of_handlerOf {event : Event} {entry : Handled} (hloop : LoopFrame r)
    (h : ftp.handlerOf event = some entry) :
    ∃ prev, r { entry.after with prevCmdName := prev } (ftp.step event)
      ∧ (prev = entry.cmd ∨ prev = entry.before.prevCmdName) := by
  rw [step_of_handlerOf h, after_handle]
  cases hresult : entry.result with
  | ok reply left =>
      refine ⟨some entry.cmd, ?_, .inl rfl⟩
      rw [Handled.after, after_of_ok hresult]
      exact hloop.handled _ _ _ _
  | error e left =>
      have hprev := (keeps_onCmd entry.env entry.param entry.cmd entry.start).prevCmdName
      refine ⟨entry.after.prevCmdName, ?_, .inr hprev⟩
      rw [Handled.after, after_of_error hresult]
      exact hloop.controlReply _ _ _ _

/-- **Steps without a handler.** Nothing but the loop moves, or a reply has been written, or the
transfer coroutine runs. -/
theorem LoopFrame.step_other (hloop : LoopFrame r) {event : Event}
    (h : ftp.handlerOf event = none) :
    r ftp (ftp.step event)
      ∨ (∃ env ok next, ftp.control = .replying next
        ∧ r (after (replyWritten env ok) ftp) (ftp.step event))
      ∨ ∃ env answer, event = .transfer env answer
        ∧ ftp.step event = after (resume env answer) ftp := by
  cases step_cases ftp event with
  | idle hstep =>
      rw [hstep]
      exact .inl (Std.Refl.refl ftp)
  | leaves env hstep =>
      rw [hstep]
      exact .inl (hloop.silent.leaveLoop env ftp)
  | replies env reply next _ hstep =>
      rw [hstep]
      exact .inl (hloop.controlReply env reply next ftp)
  | ignores env _ hstep =>
      rw [hstep]
      exact .inl (hloop.silent.nextCommand env ftp)
  | handles entry _ hhandler =>
      rw [h] at hhandler
      cases hhandler
  | written env ok next hcontrol hstep =>
      rw [hstep]
      exact .inr (.inl ⟨env, ok, next, hcontrol, hloop.silent.afterReply env next _⟩)
  | resumes env answer hevent hstep => exact .inr (.inr ⟨env, answer, hevent, hstep⟩)

end Rule

theorem resume_of_none {env : Env} {answer : Answer} (h : ftp.transferFile = none) :
    after (resume env answer) ftp = ftp := by
  unfold resume
  rw [after_bind_of_ok (EStateM.run_get ftp), h]
  rfl

/-- The loop may come to another request. -/
def Live (ftp : FtpSession) : Prop :=
  ftp.control = .created ∨ ftp.control = .fetching ∨ ftp.control = .replying .loop

theorem keeps_resume_tasks (env : Env) (answer : Answer) :
    Keeps SameButTasks (resume env answer) :=
  keeps_resume (fun _ _ => SameCore.sameButTasks) (keeps_replyWritten env) answer

theorem not_live_controlReply {env : Env} {reply : FtpReply} {next : AfterReply}
    (hnext : next ≠ .loop) : ¬ Live (after (controlReply env reply next) ftp) := by
  rcases control_controlReply env reply next ftp with hcontrol | hcontrol
  · simp [Live, hcontrol, hnext]
  · simp [Live, hcontrol]

theorem not_live_step_of_error {event : Event} {entry : Handled} {e : Exception}
    {left : FtpSession} (h : ftp.handlerOf event = some entry)
    (hresult : entry.result = .error e left) : ¬ Live (ftp.step event) := by
  rw [step_of_handlerOf h, after_handle, hresult]
  exact not_live_controlReply (by simp)

/-- Once the loop cannot come to a request any more, it never will. -/
theorem live_of_live_step {event : Event} (h : Live (ftp.step event)) : Live ftp := by
  cases step_cases ftp event with
  | idle hstep => rwa [hstep] at h
  | leaves env hstep =>
      rw [hstep] at h
      simp [Live, control_leaveLoop] at h
  | replies env reply next hcontrol => exact hcontrol.imp_right .inl
  | ignores env hcontrol => exact .inr (.inl hcontrol)
  | handles entry hcontrol => exact .inr (.inl hcontrol)
  | written env ok next hcontrol hstep =>
      rw [hstep] at h
      rcases control_afterReply env next (after (replyWritten env ok) ftp) with
        ⟨-, hnext, -⟩ | hended
      · exact .inr (.inr (by rw [hcontrol, hnext]))
      · simp [Live, hended] at h
  | resumes env answer _ hstep =>
      have hcontrol := (keeps_resume_tasks env answer ftp).control
      unfold Live at h ⊢
      rwa [hstep, hcontrol] at h

end Step

section Identity

/-- Who the client is, what it is about to rename and which command it gave last. -/
structure Identity where
  client : Option Client
  permissions : Permissions
  isLoggedIn : Bool
  loginName : Bytes
  rnfr : Bytes
  prevCmdName : Option FtpCmd

def identity (ftp : FtpSession) : Identity where
  client := ftp.session.client
  permissions := ftp.session.permissions
  isLoggedIn := ftp.state.isLoggedIn
  loginName := ftp.state.loginName
  rnfr := ftp.state.rnfr
  prevCmdName := ftp.prevCmdName

def Core.identity (core : Core) : Identity where
  client := core.client
  permissions := core.permissions
  isLoggedIn := core.isLoggedIn
  loginName := core.loginName
  rnfr := core.rnfr
  prevCmdName := core.prevCmdName

variable {before after ftp : FtpSession}

theorem SameLoop.identity (h : SameLoop before after) : after.identity = before.identity :=
  congrArg Core.identity h.core

theorem SameButTasks.identity (h : SameButTasks before after) : after.identity = before.identity :=
  congrArg Core.identity h

/-- **Only handlers change the identity.** -/
theorem identity_step {event : Event} (h : ftp.handlerOf event = none) :
    (ftp.step event).identity = ftp.identity := by
  rcases sameLoop_frame.step_other h with hloop | ⟨env, ok, next, -, hloop⟩ | ⟨env, answer, -, hstep⟩
  · exact hloop.identity
  · exact hloop.identity.trans (keeps_replyWritten env ok ftp).identity
  · rw [hstep]
    exact (keeps_resume_tasks env answer ftp).identity

theorem identity_step_of_ok {event : Event} {entry : Handled} {reply : Option FtpReply}
    {left : FtpSession} (h : ftp.handlerOf event = some entry)
    (hresult : entry.result = .ok reply left) :
    (ftp.step event).identity = { left.identity with prevCmdName := some entry.cmd } := by
  rw [step_of_handlerOf h, after_handle, hresult]
  exact (sameLoop_frame.handled entry.env entry.cmd reply left).identity

end Identity

section History

variable {ftp : FtpSession}

theorem history_induction (inv : List Handled → FtpSession → Prop)
    (hstep : ∀ past ftp event, inv past ftp →
      inv (past ++ (handlerOf ftp event).toList) (ftp.step event))
    (hstart : inv [] ftp) (events : List Event) : inv (ftp.history events) (ftp.run events) :=
  Machine.trace_induction step handlerOf inv hstep hstart events

theorem exists_of_history_eq {events : List Event} {past rest : List Handled} {entry : Handled}
    (h : ftp.history events = past ++ entry :: rest) :
    ∃ front event back, events = front ++ event :: back ∧ ftp.history front = past
      ∧ (ftp.run front).handlerOf event = some entry :=
  Machine.exists_of_trace_eq step handlerOf h

end History

end FtpSession

end Wfde
