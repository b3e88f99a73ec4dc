import Wfde.Ftp.Control
import Wfde.Proof.Confinement

/-!
# What the handlers do

Everything a handler can write is listed once, by command. A relation that allows what is listed for
a command is kept by its handler; what the handlers leave alone is derived from that.
-/

namespace Wfde

open Effect

namespace FtpCmd

/-- The commands whose handlers change files. -/
def worksOnFiles : FtpCmd → Bool
  | dele | mkd | rmd | rnto | retr | stor | stou | appe => true
  | _ => false

def startsTransfer : FtpCmd → Bool
  | retr | stor | stou | appe | list | nlst | mlsd => true
  | _ => false

end FtpCmd

namespace FtpSession

/-- What a transfer never changes while it moves data. -/
structure Core where
  client : Option Client
  permissions : Permissions
  isLoggedIn : Bool
  loginName : Bytes
  rnfr : Bytes
  prevCmdName : Option FtpCmd
  control : Control
  closePending : Bool
  tasks : List PendingTask
  ccIsEncrypted : Bool

def core (ftp : FtpSession) : Core where
  client := ftp.session.client
  permissions := ftp.session.permissions
  isLoggedIn := ftp.state.isLoggedIn
  loginName := ftp.state.loginName
  rnfr := ftp.state.rnfr
  prevCmdName := ftp.prevCmdName
  control := ftp.control
  closePending := ftp.closePending
  tasks := ftp.state.tasksPendingAfterReply
  ccIsEncrypted := ftp.state.ccIsEncrypted

def SameCore (before after : FtpSession) : Prop := after.core = before.core

/-- What all but a few handlers leave alone. -/
structure Same (before after : FtpSession) : Prop where
  core : SameCore before after
  rest : after.state.rest = before.state.rest

instance : Std.Refl Same := ⟨fun _ => ⟨rfl, rfl⟩⟩

instance : IsTrans FtpSession Same :=
  ⟨fun _ _ _ hab hbc => ⟨hbc.core.trans hab.core, hbc.rest.trans hab.rest⟩⟩

section Disk

variable {α : Type}

theorem onDisk_eq_ok {x : DiskM α} {ftp left : FtpSession} {a : α} :
    (onDisk x).run ftp = .ok a left
      ↔ ∃ disk, x.run ftp.disk = .ok a disk ∧ left = { ftp with disk } := by
  change onDisk x ftp = _ ↔ _
  unfold onDisk
  cases x.run ftp.disk with
  | ok b disk => simp [eq_comm]
  | error e disk => simp

theorem after_onDisk (x : DiskM α) (ftp : FtpSession) :
    after (onDisk x) ftp = { ftp with disk := after x ftp.disk } := by
  unfold after EStateM.run onDisk
  cases hrun : x ftp.disk <;> simp [EStateM.run, hrun]

theorem onSession_eq_ok {call : Call} {x : Session → DiskM α} {ftp left : FtpSession} {a : α} :
    (onSession call x).run ftp = .ok a left
      ↔ ∃ disk, (x ftp.session).run ftp.disk = .ok a disk
        ∧ left = { ftp with calls := ftp.calls ++ [call], disk } :=
  onDisk_eq_ok

theorem onSession_of_error {call : Call} {x : Session → DiskM α} {ftp : FtpSession} {disk : Disk}
    {e : Exception} (h : (x ftp.session).run ftp.disk = .error e disk) :
    (onSession call x).run ftp = .error e { ftp with calls := ftp.calls ++ [call], disk } := by
  change onDisk (x ftp.session) { ftp with calls := ftp.calls ++ [call] } = _
  unfold onDisk
  rw [h]

theorem keeps_onDisk (x : DiskM α) : Keeps Same (onDisk x) := by
  intro ftp
  rw [after_onDisk]
  exact ⟨rfl, rfl⟩

theorem keeps_resetFile : Keeps Same resetFile := by
  refine keeps_bind keeps_get fun ftp => ?_
  cases ftp.currentFile with
  | none => exact keeps_pure _
  | some file =>
      refine keeps_bind (keeps_modify fun _ => ⟨rfl, rfl⟩) fun _ => ?_
      exact keeps_bind (keeps_tryCatch (keeps_onDisk _) fun _ => keeps_pure _)
        fun _ => keeps_pure _

theorem keeps_startTransfer (file : RawFile) : Keeps Same (startTransfer file) := by
  refine keeps_bind (keeps_modify fun _ => ⟨rfl, rfl⟩) fun _ => ?_
  exact keeps_bind keeps_resetFile fun _ => keeps_modify fun _ => ⟨rfl, rfl⟩

end Disk

section Looking

variable (session : Session) (path : Bytes)

theorem keeps_getPathForListing : Keeps Eq (session.getPathForListing path) := by
  refine keeps_bind (keeps_lift _) fun dir => keeps_bind dir.keeps_existsOnDisk fun _ => ?_
  exact keeps_bind (keeps_require _ _) fun _ => keeps_bind (keeps_require _ _) fun _ => keeps_pure _

theorem keeps_getFileLen : Keeps Eq (session.getFileLen path) := by
  refine keeps_bind (keeps_lift _) fun file => keeps_bind (keeps_require _ _) fun _ => ?_
  exact keeps_tryCatch (Disk.keeps_fileSize _) fun _ => keeps_throw _

theorem keeps_setCwd : Keeps Eq (session.setCwd path) := by
  refine keeps_bind (keeps_lift _) fun dir => keeps_bind (keeps_require _ _) fun _ => ?_
  refine keeps_bind dir.keeps_existsOnDisk fun _ => ?_
  exact keeps_bind (keeps_require _ _) fun _ => keeps_pure _

end Looking

/-- What the handler of a command may write to the state of the protocol. -/
inductive Updates : FtpCmd → FtpState → FtpState → Prop
  | facts {state} (mdtxState) : Updates .opts state { state with mdtxState }
  | type {state} (ttype) : Updates .type state { state with ttype }
  | loginName {state} (name) : Updates .user state { state with loginName := name }
  | loggedIn {cmd state} (hcmd : cmd = .user ∨ cmd = .pass) :
      Updates cmd state { state with isLoggedIn := true }
  | port {state} (endp) : Updates .port state (state.setPort endp)
  | listen {state} (pasv) : Updates .pasv state { state with pasv := some pasv }
  | passive {state} (hpasv : state.pasv.isSome) : Updates .pasv state state.setPasv
  | requestedPath {cmd state} (path) : Updates cmd state { state with requestedPath := path }
  | rest {state} (offset) : Updates .rest state { state with rest := offset }
  | allo {state} (allo) : Updates .allo state { state with allo }
  | abort {state} : Updates .abor state state.abort
  | rnfr {state} (vpath) : Updates .rnfr state { state with rnfr := vpath }
  | hidden {cmd state} (hcmd : cmd = .list ∨ cmd = .stat) (hidden) :
      Updates cmd state { state with listHiddenFiles := hidden }
  | asBinary {state} : Updates .mlsd state { state with overrideAsBinary := true }
  | startTls {state} : Updates .auth state
      { state with tasksPendingAfterReply := state.tasksPendingAfterReply ++ [.startTls] }
  | prot {state} (encrypt) : Updates .prot state { state with encryptTransfers := encrypt }

/-- What a relation has to allow for the handler of a command. -/
structure Frame (r : FtpSession → FtpSession → Prop) (cmd : FtpCmd) : Prop where
  calls : ∀ ftp calls, r ftp { ftp with calls }
  state : ∀ ftp state, Updates cmd ftp.state state → r ftp { ftp with state }
  disk : cmd.worksOnFiles = true → ∀ ftp disk, r ftp { ftp with disk }
  login : cmd = .user ∨ cmd = .pass → ∀ ftp session, r ftp { ftp with session }
  cwd : cmd = .cwd ∨ cmd = .cdup →
    ∀ ftp cwd, r ftp { ftp with session := { ftp.session with cwd } }
  start : cmd.startsTransfer = true → ∀ file, Keeps r (startTransfer file)

section Rule

open Handler

variable {α : Type} {r : FtpSession → FtpSession → Prop}

theorem keeps_modifyState {f : FtpState → FtpState}
    (hf : ∀ ftp : FtpSession, r ftp { ftp with state := f ftp.state }) :
    Keeps r (modifyState f) := keeps_modify hf

theorem Frame.note {cmd : FtpCmd} (h : Frame r cmd) (call : Call) : Keeps r (note call) :=
  keeps_modify fun ftp => h.calls ftp _

theorem Frame.modifyState {cmd : FtpCmd} (h : Frame r cmd) {f : FtpState → FtpState}
    (hf : ∀ state, Updates cmd state (f state)) : Keeps r (modifyState f) :=
  keeps_modify fun ftp => h.state ftp _ (hf ftp.state)

variable [Std.Refl r]

theorem keeps_getState : Keeps r getState := fun ftp => Std.Refl.refl ftp

theorem keeps_getCwd : Keeps r getCwd := fun ftp => Std.Refl.refl ftp

theorem keeps_look {x : DiskM α} (hx : Keeps Eq x) : Keeps r (onDisk x) := by
  intro ftp
  rw [after_onDisk, ← hx ftp.disk]
  exact Std.Refl.refl ftp

variable [IsTrans FtpSession r]

theorem keeps_tryAction {body : Handler} (hbody : Keeps r body)
    (catches : List (Exception × Bytes)) : Keeps r (tryAction catches body) :=
  keeps_tryCatch hbody fun _ => keeps_pure _

theorem keeps_tryConnect {body : Handler} (hbody : Keeps r body) : Keeps r (tryConnect body) :=
  keeps_tryCatch hbody fun _ => keeps_pure _

theorem keeps_tryOrFail {body : Handler} (hbody : Keeps r body) : Keeps r (tryOrFail body) :=
  keeps_tryCatch hbody fun _ => keeps_pure _

namespace Frame

variable {cmd : FtpCmd} (h : Frame r cmd)
include h

theorem look (call : Call) {x : Session → DiskM α} (hx : ∀ session, Keeps Eq (x session)) :
    Keeps r (onSession call x) :=
  keeps_bind (h.note call) fun _ => keeps_bind keeps_get fun ftp => keeps_look (hx ftp.session)

theorem work (hcmd : cmd.worksOnFiles = true) (call : Call) (x : Session → DiskM α) :
    Keeps r (onSession call x) := by
  refine keeps_bind (h.note call) fun _ => keeps_bind keeps_get fun ftp at_ => ?_
  rw [after_onDisk]
  exact h.disk hcmd at_ _

theorem getPath (vpath : Bytes) (type : PathType) : Keeps r (getPath vpath type) :=
  keeps_bind keeps_get fun _ => keeps_bind (h.note _) fun _ => keeps_lift _

theorem existsOnDisk (path : Path) : Keeps r (existsOnDisk path) :=
  h.look _ fun _ => path.keeps_existsOnDisk

theorem getPathForListing (vpath : Bytes) : Keeps r (getPathForListing vpath) :=
  h.look _ fun session => keeps_getPathForListing session vpath

theorem openFile (hcmd : cmd.worksOnFiles = true) (path : Bytes) (operation : FileOperation) :
    Keeps r (openFile path operation) :=
  keeps_bind keeps_get fun _ => keeps_bind (h.work hcmd _ _) fun _ => keeps_pure _

theorem listDirectory (env : Env) (format : ListFormat) (path : Path) :
    Keeps r (listDirectory env format path) :=
  keeps_bind (h.note _) fun _ => keeps_bind keeps_getState fun _ => keeps_lift _

theorem parseListArgs (hcmd : cmd = .list ∨ cmd = .stat) (param : Bytes) :
    Keeps r (parseListArgs param) :=
  keeps_bind (h.modifyState fun _ => .hidden hcmd _) fun _ => keeps_pure _

theorem openAndTransfer (hfiles : cmd.worksOnFiles = true) (hstarts : cmd.startsTransfer = true)
    (path : Bytes) (refuse : FtpState → Bool) (refusal : Bytes) (operation : FileOperation) :
    Keeps r (openAndTransfer path refuse refusal operation) := by
  refine keeps_bind (h.modifyState fun _ => .requestedPath _) fun _ => ?_
  refine keeps_bind keeps_getState fun state => keeps_ite (keeps_pure _) ?_
  apply keeps_tryConnect
  apply keeps_bind (h.openFile hfiles path operation)
  intro file
  exact keeps_bind (h.start hstarts file) fun _ => keeps_pure _

theorem listAndTransfer (hstarts : cmd.startsTransfer = true) (env : Env) (format : ListFormat)
    (vpath : Bytes) {prepare : FtpState → FtpState}
    (hprepare : Keeps r (FtpSession.modifyState prepare)) :
    Keeps r (listAndTransfer env format vpath prepare) := by
  apply keeps_tryConnect
  apply keeps_bind (h.getPathForListing vpath)
  intro path
  refine keeps_bind (h.listDirectory env format path) fun buffers => keeps_bind hprepare fun _ => ?_
  exact keeps_bind (h.start hstarts _) fun _ => keeps_pure _

theorem fileAction (hcmd : cmd.worksOnFiles = true) (clauses : List (Exception × Bytes))
    (call : Call) (x : Session → DiskM Unit) : Keeps r (fileAction clauses (onSession call x)) :=
  keeps_tryAction (keeps_bind (h.work hcmd call x) fun _ => keeps_pure _) _

theorem changeDirectory (hcmd : cmd = .cwd ∨ cmd = .cdup) (path : Bytes) :
    Keeps r (changeDirectory path) := by
  have hset : Keeps r (setCwd path) := by
    intro ftp
    have hlook := h.look (.setCwd path) fun session => keeps_setCwd session path
    rw [setCwd, after_bind]
    cases hrun : (onSession (.setCwd path) (·.setCwd path)).run ftp with
    | error e left =>
        have hlooked := hlook ftp
        rwa [after_of_error hrun] at hlooked
    | ok session left =>
        obtain ⟨disk, hcwd, rfl⟩ := onSession_eq_ok.mp hrun
        obtain ⟨dir, -, rfl⟩ := setCwd_eq_ok hcwd
        have hlooked := hlook ftp
        rw [after_of_ok hrun] at hlooked
        exact IsTrans.trans _ _ _ hlooked (h.cwd hcmd _ dir.vpath)
  exact keeps_tryAction (keeps_bind hset fun _ => keeps_bind keeps_getCwd fun _ => keeps_pure _) _

theorem tryLogin (hcmd : cmd = .user ∨ cmd = .pass) (env : Env) (pwd : Bytes)
    (refused : FtpReplyCodes) : Keeps r (tryLogin env pwd refused) := by
  have hauthenticate (name : Bytes) : Keeps r (authenticateWithPasswd env name pwd) := by
    refine keeps_bind keeps_get fun ftp => ?_
    have hrest : Keeps r (do
        let result ← lift (ftp.session.authenticateWithPasswd env.login name pwd)
        modify fun ftp : FtpSession => { ftp with session := result.2 }
        return result.1) := by
      refine keeps_bind (keeps_lift _) fun result => ?_
      exact keeps_bind (keeps_modify fun ftp => h.login hcmd ftp _) fun _ => keeps_pure _
    exact keeps_ite (keeps_bind (h.note _) fun _ => hrest) hrest
  refine keeps_bind keeps_getState fun state => keeps_bind (hauthenticate _) fun accepted => ?_
  refine keeps_ite ?_ (keeps_pure _)
  exact keeps_bind (h.modifyState fun _ => .loggedIn hcmd) fun _ => keeps_pure _

end Frame

end Rule

section Commands

variable {r : FtpSession → FtpSession → Prop} [Std.Refl r] [IsTrans FtpSession r]

omit [IsTrans FtpSession r] in
theorem keeps_help (param : Bytes) : Keeps r (FtpCmdHelp.onCmd param) := by
  refine keeps_ite (keeps_pure _) ?_
  dsimp only
  split
  · exact keeps_pure _
  · exact keeps_pure _

theorem Frame.opts (h : Frame r .opts) (param : Bytes) : Keeps r (FtpCmdOpts.onCmd param) := by
  refine keeps_ite ?_ (keeps_pure _)
  refine keeps_bind (h.modifyState fun _ => .facts _) fun _ => ?_
  exact keeps_bind keeps_getState fun _ => keeps_pure _

theorem Frame.port (h : Frame r .port) (param : Bytes) : Keeps r (FtpCmdPort.onCmd param) := by
  unfold FtpCmdPort.onCmd
  dsimp only
  split
  · exact keeps_throw _
  · exact keeps_bind (h.modifyState fun _ => .port _) fun _ => keeps_pure _

theorem Frame.listen (h : Frame r .pasv) (env : Env) : Keeps r (FtpSession.listen env) := by
  refine keeps_bind (h.note _) fun _ => keeps_bind (h.modifyState fun _ => .listen _) fun _ => ?_
  cases env.listen with
  | none => exact keeps_throw _
  | some address => exact h.modifyState fun _ => .listen _

theorem Frame.pasv (h : Frame r .pasv) (env : Env) : Keeps r (FtpCmdPasv.onCmd env) := by
  have hacceptor : Keeps r (openAcceptor env) := by
    refine keeps_bind keeps_getState fun state => ?_
    exact keeps_ite (h.listen env) (keeps_pure _)
  refine keeps_bind hacceptor fun _ ftp => ?_
  rw [after_bind_of_ok (show getState.run ftp = .ok ftp.state ftp from rfl)]
  split
  · rename_i address hpasv
    exact h.state ftp _ (.passive (by rw [hpasv]; rfl))
  · exact Std.Refl.refl ftp

theorem Frame.size (h : Frame r .size) (param : Bytes) : Keeps r (FtpCmdSize.onCmd param) := by
  refine keeps_bind (h.modifyState fun _ => .requestedPath _) fun _ => ?_
  refine keeps_bind keeps_getState fun state => keeps_ite (keeps_pure _) ?_
  refine keeps_tryOrFail (keeps_bind ?_ fun _ => keeps_pure _)
  exact h.look _ fun session => keeps_getFileLen session param

theorem Frame.mdtm (h : Frame r .mdtm) (env : Env) (param : Bytes) :
    Keeps r (FtpCmdMdtm.onCmd env param) := by
  refine keeps_bind (h.modifyState fun _ => .requestedPath _) fun _ => ?_
  apply keeps_bind (h.getPath param .file)
  intro path
  apply keeps_tryOrFail
  apply keeps_bind (h.existsOnDisk path)
  intro found
  refine keeps_ite ?_ (keeps_pure _)
  exact keeps_bind (keeps_bind (h.note _) fun _ => keeps_lift _) fun _ => keeps_pure _

theorem Frame.allo (h : Frame r .allo) (param : Bytes) : Keeps r (FtpCmdAllo.onCmd param) := by
  unfold FtpCmdAllo.onCmd
  split
  · exact keeps_pure _
  · exact keeps_bind (h.modifyState fun _ => .allo _) fun _ => keeps_pure _

theorem Frame.rest (h : Frame r .rest) (param : Bytes) : Keeps r (FtpCmdRest.onCmd param) := by
  have hset (n : Nat) : Keeps r (FtpSession.modifyState fun state => { state with rest := n }) :=
    h.modifyState fun _ => .rest n
  refine keeps_bind (hset 0) fun _ => ?_
  split
  · exact keeps_pure _
  · refine keeps_bind keeps_getState fun state => ?_
    exact keeps_ite (keeps_pure _) (keeps_bind (hset _) fun _ => keeps_pure _)

theorem Frame.rnfr (h : Frame r .rnfr) (param : Bytes) : Keeps r (FtpCmdRnfr.onCmd param) := by
  apply keeps_tryAction
  refine keeps_bind (h.getPath param .any) fun path => keeps_ite (keeps_pure _) ?_
  refine keeps_bind (h.existsOnDisk path) fun found => keeps_ite (keeps_pure _) ?_
  exact keeps_bind (h.modifyState fun _ => .rnfr _) fun _ => keeps_pure _

theorem Frame.mlst (h : Frame r .mlst) (env : Env) (param : Bytes) :
    Keeps r (FtpCmdMlst.onCmd env param) := by
  apply keeps_tryConnect
  apply keeps_bind (h.getPath param .any)
  intro path
  apply keeps_bind (h.existsOnDisk path)
  intro found
  refine keeps_bind (keeps_require _ _) fun _ => keeps_bind (keeps_require _ _) fun _ => ?_
  exact keeps_bind (keeps_bind (h.note _) fun _ => keeps_bind keeps_getState fun _ => keeps_lift _)
    fun _ => keeps_pure _

theorem Frame.stat (h : Frame r .stat) (env : Env) (param : Bytes) :
    Keeps r (FtpCmdStat.onCmd env param) := by
  refine keeps_ite (keeps_bind keeps_getState fun _ => keeps_pure _) ?_
  apply keeps_bind (h.parseListArgs (.inr rfl) param)
  intro args
  apply keeps_tryOrFail
  apply keeps_bind (h.getPathForListing _)
  intro path
  exact keeps_bind (h.listDirectory env args.format path) fun _ => keeps_pure _

theorem Frame.auth (h : Frame r .auth) : Keeps r FtpCmdAuth.onCmd := by
  refine keeps_bind keeps_getState fun state => keeps_ite (keeps_pure _) ?_
  exact keeps_bind (h.modifyState fun _ => .startTls) fun _ => keeps_pure _

/-- **The rule of the handlers.** A relation that allows what a command may write is kept by its
handler. -/
theorem Frame.onCmd {cmd : FtpCmd} (h : Frame r cmd) (env : Env) (param : Bytes) :
    Keeps r (cmd.onCmd env param) := by
  cases cmd with
  | help => exact keeps_help param
  | feat => exact keeps_bind keeps_getState fun _ => keeps_pure _
  | opts => exact h.opts param
  | quit | syst | noop | pbsz => exact keeps_pure _
  | type => exact keeps_bind (h.modifyState fun _ => .type _) fun _ => keeps_pure _
  | abor => exact keeps_bind (h.modifyState fun _ => .abort) fun _ => keeps_pure _
  | prot => exact keeps_bind (h.modifyState fun _ => .prot _) fun _ => keeps_pure _
  | user =>
      refine keeps_bind (h.modifyState fun _ => .loginName _) fun _ => ?_
      exact h.tryLogin (.inl rfl) env _ _
  | pass => exact h.tryLogin (.inr rfl) env param _
  | port => exact h.port param
  | pasv => exact h.pasv env
  | retr | stor | stou | appe => exact h.openAndTransfer rfl rfl _ _ _ _
  | rest => exact h.rest param
  | size => exact h.size param
  | mdtm => exact h.mdtm env param
  | allo => exact h.allo param
  | pwd => exact keeps_bind keeps_getCwd fun _ => keeps_pure _
  | cwd => exact h.changeDirectory (.inl rfl) _
  | cdup => exact h.changeDirectory (.inr rfl) _
  | dele | mkd | rmd => exact h.fileAction rfl _ _ _
  | rnfr => exact h.rnfr param
  | rnto =>
      refine keeps_tryAction (keeps_bind ?_ fun _ => keeps_pure _) _
      exact keeps_bind keeps_getState fun state => h.work rfl _ _
  | list =>
      apply keeps_bind (h.parseListArgs (.inl rfl) param)
      exact fun args => h.listAndTransfer rfl env _ _ (keeps_modify fun ftp => Std.Refl.refl ftp)
  | nlst => exact h.listAndTransfer rfl env _ _ (keeps_modify fun ftp => Std.Refl.refl ftp)
  | mlsd => exact h.listAndTransfer rfl env _ _ (h.modifyState fun _ => .asBinary)
  | mlst => exact h.mlst env param
  | stat => exact h.stat env param
  | auth => exact h.auth

end Commands

/-- What the handler of a command leaves alone: the login belongs to USER and PASS, the source of a
renaming to RNFR, the restart offset to REST and the tasks behind a reply to AUTH. -/
structure Leaves (cmd : FtpCmd) (before after : FtpSession) : Prop where
  prevCmdName : after.prevCmdName = before.prevCmdName
  control : after.control = before.control
  closePending : after.closePending = before.closePending
  ccIsEncrypted : after.state.ccIsEncrypted = before.state.ccIsEncrypted
  client : cmd ≠ .user → cmd ≠ .pass → after.session.client = before.session.client
  permissions : cmd ≠ .user → cmd ≠ .pass → after.session.permissions = before.session.permissions
  isLoggedIn : cmd ≠ .user → cmd ≠ .pass → after.state.isLoggedIn = before.state.isLoggedIn
  loginName : cmd ≠ .user → cmd ≠ .pass → after.state.loginName = before.state.loginName
  rnfr : cmd ≠ .rnfr → after.state.rnfr = before.state.rnfr
  rest : cmd ≠ .rest → after.state.rest = before.state.rest
  tasks : cmd ≠ .auth → after.state.tasksPendingAfterReply = before.state.tasksPendingAfterReply

section Leaves

variable {cmd : FtpCmd}

instance : Std.Refl (Leaves cmd) :=
  ⟨fun _ => by constructor <;> intros <;> rfl⟩

instance : IsTrans FtpSession (Leaves cmd) where
  trans _ _ _ hab hbc :=
    { prevCmdName := hbc.prevCmdName.trans hab.prevCmdName
      control := hbc.control.trans hab.control
      closePending := hbc.closePending.trans hab.closePending
      ccIsEncrypted := hbc.ccIsEncrypted.trans hab.ccIsEncrypted
      client := fun huser hpass => (hbc.client huser hpass).trans (hab.client huser hpass)
      permissions := fun huser hpass =>
        (hbc.permissions huser hpass).trans (hab.permissions huser hpass)
      isLoggedIn := fun huser hpass =>
        (hbc.isLoggedIn huser hpass).trans (hab.isLoggedIn huser hpass)
      loginName := fun huser hpass => (hbc.loginName huser hpass).trans (hab.loginName huser hpass)
      rnfr := fun h => (hbc.rnfr h).trans (hab.rnfr h)
      rest := fun h => (hbc.rest h).trans (hab.rest h)
      tasks := fun h => (hbc.tasks h).trans (hab.tasks h) }

theorem Same.leaves {before after : FtpSession} (h : Same before after) :
    Leaves cmd before after where
  prevCmdName := congrArg Core.prevCmdName h.core
  control := congrArg Core.control h.core
  closePending := congrArg Core.closePending h.core
  ccIsEncrypted := congrArg Core.ccIsEncrypted h.core
  client _ _ := congrArg Core.client h.core
  permissions _ _ := congrArg Core.permissions h.core
  isLoggedIn _ _ := congrArg Core.isLoggedIn h.core
  loginName _ _ := congrArg Core.loginName h.core
  rnfr _ := congrArg Core.rnfr h.core
  rest _ := h.rest
  tasks _ := congrArg Core.tasks h.core

theorem leaves_frame (cmd : FtpCmd) : Frame (Leaves cmd) cmd where
  calls _ _ := by constructor <;> intros <;> rfl
  state ftp state hupdates := by
    cases hupdates with
    | loggedIn hcmd => rcases hcmd with rfl | rfl <;> constructor <;> simp
    | _ => constructor <;> simp [FtpState.setPort, FtpState.setPasv, FtpState.abort]
  disk _ _ _ := by constructor <;> intros <;> rfl
  login hcmd _ _ := by rcases hcmd with rfl | rfl <;> constructor <;> simp
  cwd _ _ _ := by constructor <;> intros <;> rfl
  start _ file := (keeps_startTransfer file).mono fun _ _ => Same.leaves

/-- **What a handler leaves alone.** -/
theorem keeps_onCmd (env : Env) (param : Bytes) (cmd : FtpCmd) :
    Keeps (Leaves cmd) (cmd.onCmd env param) := (leaves_frame cmd).onCmd env param

end Leaves

end FtpSession

end Wfde
