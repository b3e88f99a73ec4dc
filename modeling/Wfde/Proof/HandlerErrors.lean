import Wfde.Proof.Login
import Wfde.Proof.TransferSetup

/-!
# Errors in handlers

What the `try` blocks of the handlers are good for: whatever the body of a handler throws becomes an
error reply, except for what MDTM, PORT and PASV do outside any block. What comes out of a handler
closes the session.
-/

namespace Wfde

open Effect FtpSession

/-- The reply says that something is wrong. One of these codes is below 400. -/
def FtpReply.isError (reply : FtpReply) : Bool :=
  400 ≤ reply.code.resolve.1 || reply.code == .rejectedForPolicyReasons

section Attempts

open Handler

/-- `openAndTransfer` with nothing caught. -/
def attemptTransfer (path : Bytes) (refuse : FtpState → Bool) (refusal : Bytes)
    (operation : FileOperation) : Handler := do
  modifyState fun state => { state with requestedPath := path }
  if refuse (← getState) then answer .actionNotTaken refusal
  else
    let file ← openFile path operation
    startTransfer file
    return none

/-- `listAndTransfer` with nothing caught. -/
def attemptListing (env : Env) (format : ListFormat) (vpath : Bytes)
    (prepare : FtpState → FtpState) : Handler := do
  let path ← getPathForListing vpath
  let buffers ← listDirectory env format path
  modifyState prepare
  startTransfer (.listing buffers false)
  return none

def attemptDirectory (path : Bytes) : Handler := do
  setCwd path
  let cwd ← getCwd
  answer .fileActionOk (bytes "Directory changed to " ++ cwd)

def attemptFileAction (body : FtpM Unit) : Handler := do
  body
  answer .fileActionOk

/-- `boost::lexical_cast`, which throws. -/
def castOrThrow (digits : Bytes) : FtpM Nat :=
  match lexicalCast digits with
  | none => throw .badLexicalCast
  | some n => return n

/-- What the handler of a command does, with nothing caught. -/
def FtpCmd.attempt (env : Env) (param : Bytes) : FtpCmd → Handler
  | retr => attemptTransfer param FtpState.restNotBinary restIsBinaryOnly .read
  | stor => attemptTransfer param FtpState.restNotBinary restIsBinaryOnly .write
  | stou => attemptTransfer env.uuid (·.rest != 0) (bytes "STOU can not be combined with REST")
      .writeNew
  | appe => attemptTransfer param (·.rest != 0) (bytes "APPE can not be combined with REST") .append
  | rest => do
      modifyState fun state => { state with rest := 0 }
      let restVal ← castOrThrow param
      if restVal ≠ 0 ∧ (← getState).getType ≠ .bin then answer .actionNotTaken restIsBinaryOnly
      else
        modifyState fun state => { state with rest := restVal }
        answer .fileActionPendingInfo
          (bytes "Restarting at " ++ decimal restVal ++ bytes ". Send STOR or RETR.")
  | size => do
      modifyState fun state => { state with requestedPath := param }
      if (← getState).getType ≠ .bin then
        answer .actionNotTaken
          (bytes "SIZE is only available while in binary (IMAGE) type transfer mode")
      else
        let size ← getFileLen param
        answer .fileStatus (decimal size)
  | mdtm => do
      modifyState fun state => { state with requestedPath := param }
      let path ← getPath param .file
      if ← existsOnDisk path then
        let time ← getRfc3659FileTime env path
        answer .fileStatus time
      else answer .actionFailed
  | allo => do
      let allo ← castOrThrow param
      modifyState fun state => { state with allo }
      answer .ok
  | cwd => attemptDirectory (if param.isEmpty then [slash] else param)
  | cdup => attemptDirectory [dot, dot]
  | dele => attemptFileAction (deleteFile param)
  | mkd => attemptFileAction (createDirectory param)
  | rmd => attemptFileAction (deleteDirectory param)
  | rnfr => FtpCmdRnfr.checkSource param
  | rnto => attemptFileAction do
      let state ← getState
      rename state.rnfr param
  | list => do
      let args ← parseListArgs param
      attemptListing env args.format args.vpath id
  | nlst => attemptListing env .short param id
  | mlsd => attemptListing env .mlsd param fun state => { state with overrideAsBinary := true }
  | mlst => do
      let path ← getPath param .any
      require (← existsOnDisk path) .notFound
      require path.canList .accessDenied
      let data ← getMlstFacts env path
      verbose .fileActionOk (bytes "Listing " ++ param ++ crlf ++ data)
  | stat => do
      if param.isEmpty then
        let state ← getState
        FtpCmdStat.stat state
      else
        let args ← parseListArgs param
        let path ← getPathForListing args.vpath
        let buffers ← listDirectory env args.format path
        verbose .directoryStatus (param ++ crlf ++ FtpCmdStat.indented buffers.flatten)
  | cmd => cmd.onCmd env param

end Attempts

section Catches

open Handler

variable {α : Type} {body handler : Handler} {ftp left : FtpSession}

/-- The handler does what its body does, and where the body throws it gives an error reply. -/
def Catches (body handler : Handler) (ftp : FtpSession) : Prop :=
  match body.run ftp with
  | .ok reply left => handler.run ftp = .ok reply left
  | .error _ _ => ∃ reply left, handler.run ftp = .ok (some reply) left ∧ reply.isError = true

theorem Catches.returns (h : Catches body handler ftp) :
    ∃ reply left, handler.run ftp = .ok reply left := by
  unfold Catches at h
  split at h
  · exact ⟨_, _, h⟩
  · obtain ⟨reply, left, hrun, -⟩ := h
    exact ⟨_, _, hrun⟩

end Catches

namespace FtpSession

section Loop

variable {env : Env} {ftp : FtpSession}

/-- The loop waits for a request only while no end is pending. -/
def Waiting (ftp : FtpSession) : Prop := ftp.control = .fetching → ftp.closePending = false

theorem waiting_leaveLoop (env : Env) (ftp : FtpSession) : Waiting (after (leaveLoop env) ftp) := by
  intro hcontrol
  rw [control_leaveLoop] at hcontrol
  cases hcontrol

theorem waiting_nextCommand (env : Env) (ftp : FtpSession) :
    Waiting (after (nextCommand env) ftp) := by
  unfold nextCommand
  rw [after_bind_of_ok (EStateM.run_get ftp)]
  by_cases hgo : (!ftp.replyFailed && !ftp.closePending && !env.expired && ftp.socketOpen) = true
  · rw [if_pos hgo]
    simp only [Bool.and_eq_true, Bool.not_eq_true'] at hgo
    exact fun _ => hgo.1.1.2
  · rw [if_neg hgo]
    exact waiting_leaveLoop env ftp

theorem waiting_afterReply (env : Env) (next : AfterReply) (ftp : FtpSession) :
    Waiting (after (afterReply env next) ftp) := by
  cases next with
  | loop => exact waiting_nextCommand env ftp
  | endSession => exact waiting_nextCommand env _
  | closePending => exact waiting_nextCommand env _
  | leave => exact waiting_leaveLoop env ftp

theorem waiting_controlReply (env : Env) (reply : FtpReply) (next : AfterReply)
    (ftp : FtpSession) : Waiting (after (controlReply env reply next) ftp) := by
  unfold controlReply
  rw [after_bind_of_ok (EStateM.run_get ftp)]
  split
  · exact nofun
  · exact waiting_afterReply env next ftp

theorem waiting_handled (env : Env) (cmd : FtpCmd) (reply : Option FtpReply) (ftp : FtpSession) :
    Waiting (after (handled env cmd reply) ftp) := by
  cases reply with
  | some reply =>
      rw [after_handled_some]
      exact waiting_controlReply env _ _ _
  | none =>
      unfold handled
      rw [after_bind_of_returns (returns_modify _),
        after_bind_of_ok (show getState.run _ = .ok _ _ from rfl)]
      split
      · rw [after_bind_of_returns returns_callAbort, after_bind_of_returns (returns_modify _)]
        exact waiting_nextCommand env _
      · exact waiting_nextCommand env _

theorem Waiting.step (h : Waiting ftp) (event : Event) : Waiting (ftp.step event) := by
  cases step_cases ftp event with
  | idle hstep => rwa [hstep]
  | leaves env hstep =>
      rw [hstep]
      exact waiting_leaveLoop env ftp
  | replies env reply next _ hstep =>
      rw [hstep]
      exact waiting_controlReply env reply next ftp
  | ignores env _ hstep =>
      rw [hstep]
      exact waiting_nextCommand env ftp
  | handles entry _ _ _ hstep =>
      rw [hstep, after_handle]
      split
      · exact waiting_handled entry.env entry.cmd _ _
      · exact waiting_controlReply entry.env _ _ _
  | written env ok next _ hstep =>
      rw [hstep]
      exact waiting_afterReply env next _
  | resumes env answer _ hstep =>
      have hcore := keeps_resume_tasks env answer ftp
      have hpending : (after (resume env answer) ftp).closePending = ftp.closePending :=
        congrArg Core.closePending hcore
      rw [hstep]
      intro hcontrol
      rw [hpending]
      exact h (hcore.control.symm.trans hcontrol)

end Loop

/-- Nothing is asked for outside a `try` block that the argument, or the system, does not give. -/
def harmless (ftp : FtpSession) (env : Env) (line : Bytes) : Bool :=
  match ftp.dispatch env line with
  | .handle .mdtm param => (ftp.session.getPath param .file).isOk
  | .handle .port param => (FtpCmdPort.makeAddressV4 ((param.splitOn 44).take 4)).isSome
  | .handle .pasv _ =>
      match ftp.state.pasv with
      | none => env.listen.isSome
      | some acceptor => acceptor.listening
  | _ => true

/-- The session when the transfer coroutine has run for a while. -/
def turned (ftp : FtpSession) (answers : List (Env × Answer)) : FtpSession :=
  ftp.run (answers.map fun answer => .transfer answer.1 answer.2)

section Survives

variable {env : Env} {ftp left : FtpSession} {line param : Bytes} {cmd : FtpCmd}

/-- The loop will come to another request. -/
structure Unhurt (ftp : FtpSession) : Prop where
  closePending : ftp.closePending = false
  control : ftp.control = .fetching ∨ ftp.control = .replying .loop

theorem Unhurt.of_core (h : Unhurt ftp) (hcore : SameButTasks ftp left) : Unhurt left :=
  ⟨(congrArg Core.closePending hcore).trans h.closePending, by rw [hcore.control]; exact h.control⟩

theorem Unhurt.turned (h : Unhurt ftp) (answers : List (Env × Answer)) :
    Unhurt (ftp.turned answers) := by
  unfold FtpSession.turned
  induction answers generalizing ftp with
  | nil => exact h
  | cons answer answers ih =>
      exact ih (h.of_core (keeps_resume_tasks answer.1 answer.2 ftp))

theorem nextCommand_of_intact (hpending : ftp.closePending = false) (hcan : ftp.canReply = true)
    (hexpired : env.expired = false) :
    after (nextCommand env) ftp = { ftp with control := .fetching } := by
  unfold nextCommand
  rw [after_bind_of_ok (EStateM.run_get ftp), if_pos]
  · rfl
  · simp only [canReply, Bool.and_eq_true, Bool.not_eq_true'] at hcan
    simp [hpending, hexpired, hcan]

theorem Unhurt.written (h : Unhurt ftp) (hexpired : env.expired = false)
    (hcan : (after (replyWritten env true) ftp).canReply = true) :
    (ftp.step (.written env true)).closePending = false := by
  rcases h.control with hcontrol | hcontrol
  · simp only [FtpSession.step, hcontrol]
    exact h.closePending
  · have hkept := keeps_replyWritten env true ftp
    have hpending : (after (replyWritten env true) ftp).closePending = false :=
      (congrArg Core.closePending hkept).trans h.closePending
    rw [step_written hcontrol, after_bind_of_returns (returns_replyWritten env true)]
    change (after (nextCommand env) _).closePending = false
    rw [nextCommand_of_intact hpending hcan hexpired]
    exact hpending

theorem controlReply_of_canReply (hcan : ftp.canReply = true) (reply : FtpReply)
    (next : AfterReply) : after (controlReply env reply next) ftp
      = { ftp with replies := ftp.replies ++ [reply], control := .replying next } := by
  unfold controlReply
  rw [after_bind_of_ok (EStateM.run_get ftp), if_pos hcan]
  rfl

end Survives

end FtpSession

section Results

def loggedIn : List Event := [.start joeEnv, .written joeEnv true] ++ exchange "USER joe"

end Results

end Wfde
