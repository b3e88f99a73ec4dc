import Wfde.Proof.TransferFootprint

/-!
# Sessions on two disks

The handlers and the command loop, in two sessions that differ in nothing but what they do not see of
their disks. A step leaves them so, as long as the permissions they hold lead nowhere else.
-/

namespace Wfde

open Effect

namespace FtpSession

variable {reach : Reach} {outer : FileSystem} {holds : Permissions → Prop} {toWrite : Bool}
  {ftp ftp' : FtpSession}

section Operations

variable {α : Type}

theorem inStep_note (call : Call) : InStep reach outer holds toWrite (note call) :=
  parallel_unseen (by constructor <;> intros <;> rfl)

theorem parallel_onSession {p : α → Prop} {call : Call} {x : Session → DiskM α}
    (hx : ∀ session : Session, holds session.permissions → Parallel (Twins reach outer) p (x session)) :
    Parallel (Twin reach outer holds toWrite) p (onSession call x) := by
  refine parallel_bind (inStep_note call) fun _ _ => ?_
  exact parallel_look (fun _ _ => rfl) fun ftp _ h => parallel_onDisk (hx ftp.session h.permissions)

theorem inStep_existsOnDisk {path : Path} (hpath : path.ppath ∈ reach.reads) :
    InStep reach outer holds toWrite (FtpSession.existsOnDisk path) :=
  parallel_onSession fun _ _ => parallel_existsOnDisk hpath

theorem inStep_lift (y : Except Exception α) :
    InStep reach outer holds toWrite (lift y : FtpM α) :=
  (parallel_lift y).imp fun _ _ => trivial

theorem inStep_require (condition : Bool) (e : Exception) :
    InStep reach outer holds toWrite (require condition e : FtpM PUnit) :=
  (parallel_require condition e).imp fun _ _ => trivial

/-- A file that is opened: it may be written unless it is only read. -/
def Opens (reach : Reach) (file : RawFile) : Prop :=
  file.Within reach ∧ (file.getOperation ≠ .read → file.Writable reach)

/-- A transfer that starts uses the file it was given. -/
theorem inStep_startTransfer {file : RawFile} (hfile : Opens reach file) :
    InStep reach outer holds false (startTransfer file) := by
  refine parallel_bind (inStep_note _) fun _ _ => parallel_bind inStep_resetFile fun _ _ => ?_
  refine parallel_modify fun ftp ftp' h => ⟨by rw [h.same], h.disks, h.permissions, ?_⟩
  intro current hcurrent
  have hinner : current.inner = file := by
    rw [← Option.some.inj hcurrent]
    split <;> rfl
  unfold Uses
  rw [hinner]
  by_cases hread : file.getOperation = .read
  · exact .inr ⟨rfl, if_pos hread, id, hfile.1⟩
  · exact .inl (hfile.2 hread)

theorem inStep_listDirectory (env : Env) (format : ListFormat) (path : Path) :
    InStep reach outer holds toWrite (listDirectory env format path) :=
  parallel_bind (inStep_note _) fun _ _ => parallel_getState fun _ => inStep_lift _

variable (hcovers : ∀ perms, holds perms → reach.Covers perms)
include hcovers

theorem parallel_getPath (vpath : Bytes) (type : PathType) :
    Parallel (Twin reach outer holds toWrite) (fun path => path.ppath ∈ reach.reads)
      (FtpSession.getPath vpath type) := by
  refine parallel_look (fun _ _ => rfl) fun ftp _ h => parallel_bind (inStep_note _) fun _ _ => ?_
  exact (parallel_lift _).imp fun _ hpath => (hcovers _ h.permissions).reads hpath

theorem inStep_getPathForListing (vpath : Bytes) :
    InStep reach outer holds toWrite (FtpSession.getPathForListing vpath) :=
  parallel_onSession fun _ hholds => Session.parallel_getPathForListing (hcovers _ hholds) vpath

theorem inStep_setCwd (path : Bytes) :
    InStep reach outer holds toWrite (FtpSession.setCwd path) := by
  have hset : Parallel (Twin reach outer holds toWrite) (fun changed => holds changed.permissions)
      (onSession (.setCwd path) (·.setCwd path)) :=
    parallel_onSession fun session hholds =>
      (Session.parallel_setCwd (hcovers _ hholds) path).imp fun _ hsame => by rwa [hsame]
  refine parallel_bind hset fun changed hchanged => ?_
  exact parallel_modify fun ftp ftp' h => ⟨by rw [h.same], h.disks, hchanged, h.file⟩

theorem parallel_openFile (path : Bytes) (operation : FileOperation) :
    Parallel (Twin reach outer holds toWrite) (Opens reach) (FtpSession.openFile path operation) := by
  refine parallel_look (fun _ _ => rfl) fun ftp _ _ => ?_
  refine parallel_bind (parallel_onSession fun _ hholds =>
    Session.parallel_openFile (hcovers _ hholds) ftp.segmentSize path operation) fun file hfile => ?_
  exact parallel_pure hfile

end Operations

section Handlers

open Handler

theorem inStep_tryAction {body : Handler} (hbody : InStep reach outer holds toWrite body)
    (catches : List (Exception × Bytes)) :
    InStep reach outer holds toWrite (tryAction catches body) :=
  parallel_tryCatch hbody fun _ => parallel_pure trivial

theorem inStep_tryConnect {body : Handler} (hbody : InStep reach outer holds toWrite body) :
    InStep reach outer holds toWrite (tryConnect body) :=
  parallel_tryCatch hbody fun _ => parallel_pure trivial

theorem inStep_tryOrFail {body : Handler} (hbody : InStep reach outer holds toWrite body) :
    InStep reach outer holds toWrite (tryOrFail body) :=
  parallel_tryCatch hbody fun _ => parallel_pure trivial

theorem inStep_answer (code : FtpReplyCodes) (message : Bytes) :
    InStep reach outer holds toWrite (answer code message) := parallel_pure trivial

theorem inStep_updateThen {f : FtpState → FtpState} {rest : Handler}
    (hrest : InStep reach outer holds toWrite rest)
    (htransfer : ∀ state, (f state).transfer = state.transfer) :
    InStep reach outer holds toWrite (modifyState f >>= fun _ => rest) :=
  parallel_bind (inStep_modifyState htransfer) fun _ _ => hrest

/-- What a client is told of its login does not depend on the disk. -/
theorem inStep_tryLogin (env : Env) (pwd : Bytes) (refused : FtpReplyCodes) :
    InStep reach outer (fun _ => True) toWrite (tryLogin env pwd refused) := by
  have hauthenticate (name : Bytes) : InStep reach outer (fun _ => True) toWrite
      (FtpSession.authenticateWithPasswd env name pwd) := by
    refine parallel_look (fun _ _ => rfl) fun ftp _ _ => ?_
    have hrest : InStep reach outer (fun _ => True) toWrite (do
        let result ← lift (ftp.session.authenticateWithPasswd env.login name pwd)
        modify fun ftp : FtpSession => { ftp with session := result.2 }
        return result.1) := by
      refine parallel_bind (inStep_lift _) fun result _ => ?_
      refine parallel_bind (p := fun _ => True) ?_ fun _ _ => parallel_pure trivial
      exact parallel_modify fun ftp ftp' h => ⟨by rw [h.same], h.disks, trivial, h.file⟩
    exact parallel_ite (fun _ => parallel_bind (inStep_note _) fun _ _ => hrest) fun _ => hrest
  refine parallel_getState fun state => parallel_bind (hauthenticate _) fun accepted _ => ?_
  refine parallel_ite (fun _ => inStep_updateThen ?_ fun _ => rfl) fun _ => inStep_answer _ _
  exact inStep_answer _ _

theorem inStep_port (param : Bytes) :
    InStep reach outer holds toWrite (FtpCmdPort.onCmd param) := by
  unfold FtpCmdPort.onCmd
  dsimp only
  split
  · exact parallel_throw _
  · exact inStep_updateThen (inStep_answer _ _) fun _ => rfl

theorem inStep_listen (env : Env) : InStep reach outer holds toWrite (FtpSession.listen env) := by
  refine parallel_bind (inStep_note _) fun _ _ => ?_
  refine parallel_bind (inStep_modifyState fun _ => rfl) fun _ _ => ?_
  cases env.listen with
  | none => exact parallel_throw _
  | some address => exact inStep_modifyState fun _ => rfl

theorem inStep_pasv (env : Env) : InStep reach outer holds toWrite (FtpCmdPasv.onCmd env) := by
  have hacceptor : InStep reach outer holds toWrite (openAcceptor env) :=
    parallel_getState fun state =>
      parallel_ite (fun _ => inStep_listen env) fun _ => parallel_pure trivial
  refine parallel_bind hacceptor fun _ _ => parallel_getState fun state => ?_
  split
  · exact inStep_updateThen (inStep_answer _ _) fun _ => rfl
  · exact parallel_throw _

theorem inStep_opts (param : Bytes) : InStep reach outer holds toWrite (FtpCmdOpts.onCmd param) := by
  refine parallel_ite (fun _ => ?_) fun _ => inStep_answer _ _
  refine inStep_updateThen ?_ fun _ => rfl
  exact parallel_getState fun _ => inStep_answer _ _

theorem inStep_help (param : Bytes) : InStep reach outer holds toWrite (FtpCmdHelp.onCmd param) := by
  refine parallel_ite (fun _ => parallel_pure trivial) fun _ => ?_
  dsimp only
  split
  · exact inStep_answer _ _
  · exact inStep_answer _ _

theorem inStep_allo (param : Bytes) : InStep reach outer holds toWrite (FtpCmdAllo.onCmd param) := by
  unfold FtpCmdAllo.onCmd
  split
  · exact inStep_answer _ _
  · exact inStep_updateThen (inStep_answer _ _) fun _ => rfl

theorem inStep_rest (param : Bytes) : InStep reach outer holds toWrite (FtpCmdRest.onCmd param) := by
  refine inStep_updateThen ?_ fun _ => rfl
  split
  · exact inStep_answer _ _
  · refine parallel_getState fun state => parallel_ite (fun _ => inStep_answer _ _) fun _ => ?_
    exact inStep_updateThen (inStep_answer _ _) fun _ => rfl

theorem inStep_auth : InStep reach outer holds toWrite FtpCmdAuth.onCmd := by
  refine parallel_getState fun state => parallel_ite (fun _ => inStep_answer _ _) fun _ => ?_
  exact inStep_updateThen (inStep_answer _ _) fun _ => rfl

theorem inStep_parseListArgs (param : Bytes) :
    InStep reach outer holds toWrite (parseListArgs param) :=
  parallel_bind (inStep_modifyState fun _ => rfl) fun _ _ => parallel_pure trivial

section Resolving

variable (hcovers : ∀ perms, holds perms → reach.Covers perms)
include hcovers

theorem inStep_openAndTransfer (path : Bytes) (refuse : FtpState → Bool) (refusal : Bytes)
    (operation : FileOperation) :
    InStep reach outer holds false (openAndTransfer path refuse refusal operation) := by
  refine inStep_updateThen (parallel_getState fun state => ?_) fun _ => rfl
  refine parallel_ite (fun _ => inStep_answer _ _) fun _ => inStep_tryConnect ?_
  refine parallel_bind (parallel_openFile hcovers path operation) fun file hfile => ?_
  exact parallel_bind (inStep_startTransfer hfile) fun _ _ => parallel_pure trivial

theorem inStep_listAndTransfer (env : Env) (format : ListFormat) (vpath : Bytes)
    {prepare : FtpState → FtpState} (hprepare : ∀ state, (prepare state).transfer = state.transfer) :
    InStep reach outer holds false (listAndTransfer env format vpath prepare) := by
  apply inStep_tryConnect
  refine parallel_bind (inStep_getPathForListing hcovers vpath) fun path _ => ?_
  refine parallel_bind (inStep_listDirectory env format path) fun buffers _ => ?_
  refine inStep_updateThen ?_ hprepare
  have hopens : Opens reach (.listing buffers false) := ⟨trivial, fun _ => trivial⟩
  exact parallel_bind (inStep_startTransfer hopens) fun _ _ => parallel_pure trivial

theorem inStep_fileAction (clauses : List (Exception × Bytes)) (call : Call)
    {x : Session → DiskM Unit}
    (hx : ∀ session : Session, reach.Covers session.permissions →
      Parallel (Twins reach outer) (fun _ => True) (x session)) :
    InStep reach outer holds toWrite (fileAction clauses (onSession call x)) := by
  have hcall : InStep reach outer holds toWrite (onSession call x) :=
    parallel_onSession fun session hholds => hx session (hcovers _ hholds)
  exact inStep_tryAction (parallel_bind hcall fun _ _ => inStep_answer _ _) _

theorem inStep_changeDirectory (path : Bytes) :
    InStep reach outer holds toWrite (changeDirectory path) := by
  refine inStep_tryAction (parallel_bind (inStep_setCwd hcovers path) fun _ _ => ?_) _
  have hcwd : getCwd >>= (fun cwd => answer .fileActionOk (bytes "Directory changed to " ++ cwd))
      = get >>= fun ftp : FtpSession =>
        answer .fileActionOk (bytes "Directory changed to " ++ ftp.session.cwd) := rfl
  rw [hcwd]
  exact parallel_look (fun _ _ => rfl) fun _ _ _ => inStep_answer _ _

theorem inStep_size (param : Bytes) : InStep reach outer holds toWrite (FtpCmdSize.onCmd param) := by
  refine inStep_updateThen (parallel_getState fun state => ?_) fun _ => rfl
  refine parallel_ite (fun _ => inStep_answer _ _) fun _ => ?_
  have hlen : InStep reach outer holds toWrite (FtpSession.getFileLen param) :=
    parallel_onSession fun _ hholds => Session.parallel_getFileLen (hcovers _ hholds) param
  exact inStep_tryOrFail (parallel_bind hlen fun _ _ => inStep_answer _ _)

theorem inStep_mdtm (env : Env) (param : Bytes) :
    InStep reach outer holds toWrite (FtpCmdMdtm.onCmd env param) := by
  refine inStep_updateThen ?_ fun _ => rfl
  refine parallel_bind (parallel_getPath hcovers param .file) fun path hpath => ?_
  refine inStep_tryOrFail (parallel_bind (inStep_existsOnDisk hpath) fun found _ => ?_)
  refine parallel_ite (fun _ => ?_) fun _ => inStep_answer _ _
  exact parallel_bind (parallel_bind (inStep_note _) fun _ _ => inStep_lift _) fun _ _ =>
    inStep_answer _ _

theorem inStep_rnfr (param : Bytes) : InStep reach outer holds toWrite (FtpCmdRnfr.onCmd param) := by
  apply inStep_tryAction
  refine parallel_bind (parallel_getPath hcovers param .any) fun path hpath => ?_
  refine parallel_ite (fun _ => inStep_answer _ _) fun _ => ?_
  refine parallel_bind (inStep_existsOnDisk hpath) fun found _ => ?_
  refine parallel_ite (fun _ => inStep_answer _ _) fun _ => ?_
  exact inStep_updateThen (inStep_answer _ _) fun _ => rfl

theorem inStep_mlst (env : Env) (param : Bytes) :
    InStep reach outer holds toWrite (FtpCmdMlst.onCmd env param) := by
  apply inStep_tryConnect
  refine parallel_bind (parallel_getPath hcovers param .any) fun path hpath => ?_
  refine parallel_bind (inStep_existsOnDisk hpath) fun found _ => ?_
  refine parallel_bind (inStep_require _ _) fun _ _ => parallel_bind (inStep_require _ _) fun _ _ => ?_
  have hfacts : InStep reach outer holds toWrite (FtpSession.getMlstFacts env path) :=
    parallel_bind (inStep_note _) fun _ _ => parallel_getState fun _ => inStep_lift _
  exact parallel_bind hfacts fun _ _ => parallel_pure trivial

theorem inStep_stat (env : Env) (param : Bytes) :
    InStep reach outer holds toWrite (FtpCmdStat.onCmd env param) := by
  refine parallel_ite (fun _ => parallel_getState fun _ => inStep_answer _ _) fun _ => ?_
  refine parallel_bind (inStep_parseListArgs param) fun args _ => inStep_tryOrFail ?_
  refine parallel_bind (inStep_getPathForListing hcovers _) fun path _ => ?_
  exact parallel_bind (inStep_listDirectory env args.format path) fun _ _ => parallel_pure trivial

/-- **The handlers** do the same in both sessions. -/
theorem inStep_onCmd {cmd : FtpCmd} (huser : cmd ≠ .user) (hpass : cmd ≠ .pass) (env : Env)
    (param : Bytes) : InStep reach outer holds false (cmd.onCmd env param) := by
  cases cmd with
  | user => exact absurd rfl huser
  | pass => exact absurd rfl hpass
  | help => exact inStep_help param
  | feat => exact parallel_getState fun _ => parallel_pure trivial
  | opts => exact inStep_opts param
  | quit | syst | noop | pbsz => exact parallel_pure trivial
  | type => exact inStep_updateThen (inStep_answer _ _) fun _ => rfl
  | abor => exact inStep_updateThen (parallel_pure trivial) fun _ => rfl
  | prot => exact inStep_updateThen (inStep_answer _ _) fun _ => rfl
  | port => exact inStep_port param
  | pasv => exact inStep_pasv env
  | retr | stor | stou | appe => exact inStep_openAndTransfer hcovers _ _ _ _
  | rest => exact inStep_rest param
  | size => exact inStep_size hcovers param
  | mdtm => exact inStep_mdtm hcovers env param
  | allo => exact inStep_allo param
  | pwd => exact parallel_look (fun _ _ => rfl) fun _ _ _ => inStep_answer _ _
  | cwd => exact inStep_changeDirectory hcovers _
  | cdup => exact inStep_changeDirectory hcovers _
  | dele =>
      exact inStep_fileAction hcovers _ _ fun _ h => Session.parallel_deleteFile h param
  | mkd =>
      exact inStep_fileAction hcovers _ _ fun _ h => Session.parallel_createDirectory h param
  | rmd =>
      exact inStep_fileAction hcovers _ _ fun _ h => Session.parallel_deleteDirectory h param
  | rnfr => exact inStep_rnfr hcovers param
  | rnto =>
      have hrename : InStep reach outer holds false (do
          let state ← getState
          FtpSession.rename state.rnfr param) :=
        parallel_getState fun state => parallel_onSession fun _ hholds =>
          Session.parallel_rename (hcovers _ hholds) state.rnfr param
      exact inStep_tryAction (parallel_bind hrename fun _ _ => inStep_answer _ _) _
  | list =>
      refine parallel_bind (inStep_parseListArgs param) fun args _ => ?_
      exact inStep_listAndTransfer hcovers env _ _ fun _ => rfl
  | nlst => exact inStep_listAndTransfer hcovers env _ _ fun _ => rfl
  | mlsd => exact inStep_listAndTransfer hcovers env _ _ fun _ => rfl
  | mlst => exact inStep_mlst hcovers env param
  | stat => exact inStep_stat hcovers env param
  | auth => exact inStep_auth

end Resolving

end Handlers

section Loop

variable (env : Env)

theorem inStep_callAbort : InStep reach outer holds toWrite callAbort := by
  refine parallel_look (fun _ _ => rfl) fun ftp _ _ => ?_
  split
  · exact parallel_pure trivial
  · exact inStep_modifyState fun _ => rfl
  · exact parallel_unseen (by constructor <;> intros <;> rfl)

theorem inStep_close : InStep reach outer holds toWrite close :=
  parallel_unseen (by constructor <;> intros <;> rfl)

theorem inStep_doClose : InStep reach outer holds toWrite (doClose env) := by
  refine parallel_look (fun _ _ => rfl) fun ftp _ _ =>
    parallel_ite (fun _ => ?_) fun _ => parallel_pure trivial
  refine parallel_bind inStep_close fun _ _ => ?_
  refine parallel_bind (parallel_unseen (by constructor <;> intros <;> rfl)) fun _ _ => ?_
  exact parallel_ite (fun _ => inStep_callAbort) fun _ => parallel_pure trivial

theorem inStep_leaveLoop : InStep reach outer holds toWrite (leaveLoop env) :=
  parallel_bind (inStep_doClose env) fun _ _ =>
    parallel_unseen (by constructor <;> intros <;> rfl)

theorem inStep_nextCommand : InStep reach outer holds toWrite (nextCommand env) := by
  refine parallel_look (fun _ _ => rfl) fun ftp _ _ =>
    parallel_ite (fun _ => ?_) fun _ => inStep_leaveLoop env
  exact parallel_unseen (by constructor <;> intros <;> rfl)

theorem inStep_afterReply (next : AfterReply) :
    InStep reach outer holds toWrite (afterReply env next) := by
  cases next with
  | loop => exact inStep_nextCommand env
  | endSession => exact parallel_bind inStep_close fun _ _ => inStep_nextCommand env
  | closePending =>
      refine parallel_bind (parallel_unseen ?_) fun _ _ => inStep_nextCommand env
      constructor <;> intros <;> rfl
  | leave => exact inStep_leaveLoop env

theorem inStep_controlReply (reply : FtpReply) (next : AfterReply) :
    InStep reach outer holds toWrite (controlReply env reply next) := by
  refine parallel_look (fun _ _ => rfl) fun ftp _ _ =>
    parallel_ite (fun _ => ?_) fun _ => inStep_afterReply env next
  exact parallel_unseen (by constructor <;> intros <;> rfl)

theorem inStep_handled (cmd : FtpCmd) (reply : Option FtpReply) :
    InStep reach outer holds toWrite (handled env cmd reply) := by
  refine parallel_bind (parallel_unseen (by constructor <;> intros <;> rfl)) fun _ _ => ?_
  cases reply with
  | some reply => exact inStep_controlReply env reply _
  | none =>
      refine parallel_getState fun state =>
        parallel_ite (fun _ => ?_) fun _ => inStep_nextCommand env
      refine parallel_bind inStep_callAbort fun _ _ => ?_
      refine parallel_bind (parallel_unseen ?_) fun _ _ => inStep_nextCommand env
      constructor <;> intros <;> rfl

theorem run_handle (cmd : FtpCmd) (param : Bytes) (ftp : FtpSession) :
    (handle env cmd param).run ftp
      = match (cmd.onCmd env param).run { ftp with calls := [] } with
        | .ok reply ftp => (handled env cmd reply).run ftp
        | .error _ ftp =>
            (controlReply env { code := .bye, message := bytes "Internal server error" }
              .closePending).run ftp := rfl

/-- A handler that does the same in both sessions is followed by the same in both. -/
theorem inStep_handle {cmd : FtpCmd} {param : Bytes}
    (hcmd : InStep reach outer holds toWrite (cmd.onCmd env param)) :
    InStep reach outer holds toWrite (handle env cmd param) := by
  intro ftp ftp' h
  have hstart : Twin reach outer holds toWrite { ftp with calls := [] } { ftp' with calls := [] } :=
    h.unseen (f := fun ftp => { ftp with calls := [] }) (by constructor <;> intros <;> rfl)
  have hruns := hcmd _ _ hstart
  unfold ParallelAt at hruns ⊢
  rw [run_handle, run_handle]
  cases hs : (cmd.onCmd env param).run { ftp with calls := [] } <;>
    cases ht : (cmd.onCmd env param).run { ftp' with calls := [] } <;>
    simp only [hs, ht] at hruns
  · obtain ⟨rfl, -, hrest⟩ := hruns
    exact inStep_handled env cmd _ _ _ hrest
  · exact inStep_controlReply env _ _ _ _ hruns.2

end Loop

section Step

/-- Whatever permissions the sessions hold. -/
theorem Twin.any (h : Twin reach outer holds toWrite ftp ftp') :
    Twin reach outer (fun _ => True) toWrite ftp ftp' :=
  ⟨h.same, h.disks, trivial, h.file⟩

theorem Twin.holding (h : Twin reach outer (fun _ => True) toWrite ftp ftp')
    (hholds : holds ftp.session.permissions) : Twin reach outer holds toWrite ftp ftp' :=
  ⟨h.same, h.disks, hholds, h.file⟩

theorem Twin.handles (h : Twin reach outer reach.Covers false ftp ftp') (env : Env) (cmd : FtpCmd)
    (param : Bytes) (hcovers : reach.Covers (after (handle env cmd param) ftp).session.permissions) :
    Twin reach outer reach.Covers false (after (handle env cmd param) ftp)
      (after (handle env cmd param) ftp') := by
  by_cases hlogin : cmd = .user ∨ cmd = .pass
  · have honCmd : InStep reach outer (fun _ => True) false (cmd.onCmd env param) := by
      rcases hlogin with rfl | rfl
      · exact inStep_updateThen (inStep_tryLogin env _ _) fun _ => rfl
      · exact inStep_tryLogin env param _
    exact ((inStep_handle env honCmd).after h.any).holding hcovers
  · rw [not_or] at hlogin
    have honCmd : InStep reach outer reach.Covers false (cmd.onCmd env param) :=
      inStep_onCmd (fun _ => id) hlogin.1 hlogin.2 env param
    exact (inStep_handle env honCmd).after h

theorem Twin.gate (h : Twin reach outer holds toWrite ftp ftp') (control : Control) {x : FtpM Unit}
    (hx : InStep reach outer holds toWrite x) :
    Twin reach outer holds toWrite (if ftp.control = control then after x ftp else ftp)
      (if ftp'.control = control then after x ftp' else ftp') := by
  have hcontrol : ftp'.control = ftp.control := by rw [h.same]
  rw [hcontrol]
  by_cases hwaits : ftp.control = control
  · rw [if_pos hwaits, if_pos hwaits]
    exact hx.after h
  · rw [if_neg hwaits, if_neg hwaits]
    exact h

theorem Twin.request (h : Twin reach outer reach.Covers false ftp ftp') (env : Env) (line : Bytes)
    (hcovers : reach.Covers (after (processRequest env line) ftp).session.permissions) :
    Twin reach outer reach.Covers false (after (processRequest env line) ftp)
      (after (processRequest env line) ftp') := by
  have hdispatch : ftp'.dispatch env line = ftp.dispatch env line := by
    rw [h.same]
    rfl
  rw [after_processRequest] at hcovers
  rw [after_processRequest, after_processRequest, hdispatch]
  cases hcase : ftp.dispatch env line with
  | ignore => exact (inStep_nextCommand env).after h
  | refuse reply => exact (inStep_controlReply env reply .loop).after h
  | handle cmd param =>
      rw [hcase] at hcovers
      exact h.handles env cmd param hcovers

/-- **Two sessions in step.** If the first one's permissions lead nowhere else behind the step, both
have done the same. -/
theorem Twin.step (h : Twin reach outer reach.Covers false ftp ftp') (event : Event)
    (hcovers : reach.Covers (ftp.step event).session.permissions) :
    Twin reach outer reach.Covers false (ftp.step event) (ftp'.step event) := by
  have hcontrol : ftp'.control = ftp.control := by rw [h.same]
  cases event with
  | start env =>
      refine h.gate .created ?_
      exact parallel_ite (fun _ => inStep_leaveLoop env) fun _ => inStep_controlReply env _ _
  | request env line =>
      unfold FtpSession.step at hcovers ⊢
      dsimp only at hcovers ⊢
      rw [hcontrol]
      by_cases hfetching : ftp.control = .fetching
      · rw [if_pos hfetching] at hcovers
        rw [if_pos hfetching, if_pos hfetching]
        exact h.request env line hcovers
      · rw [if_neg hfetching, if_neg hfetching]
        exact h
  | inputTooBig env => exact h.gate .fetching (inStep_controlReply env _ _)
  | noInput env => exact h.gate .fetching (inStep_leaveLoop env)
  | written env ok =>
      unfold FtpSession.step
      dsimp only
      rw [hcontrol]
      cases ftp.control with
      | replying next =>
          have hwritten : InStep reach outer reach.Covers false (do
              replyWritten env ok
              FtpSession.afterReply env next) :=
            parallel_bind (inStep_replyWritten env ok) fun _ _ => inStep_afterReply env next
          exact hwritten.after h
      | _ => exact h
  | transfer env answer => exact (inStep_resume env answer).after h

end Step

end FtpSession

end Wfde
