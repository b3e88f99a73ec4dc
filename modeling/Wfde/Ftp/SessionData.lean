import Wfde.Ftp.Protocol

/-!
# The state of an FTP session

`WfdeFtpSession` together with the session it drives and the disk that session works on, and what a
command can ask of them. Two coroutines run on the state, `ProcessCommands` and `TransferFile`; each
is kept as the point where it waits for I/O, and they switch only there. What a handler asks for is
noted in `calls`.
-/

namespace Wfde

open Effect

/-- `Format` of the listing commands, and the classes of `WfdeFtpList`. -/
inductive ListFormat where
  | long
  | short
  | mlsd
  deriving DecidableEq

/-- What the world outside the session answers while a coroutine runs from one wait to the next. -/
structure Env where
  /-- `AuthManager::Login` -/
  login : Bytes → Bytes → Except Exception Client := fun _ _ => .error .badCredentials
  uuid : Bytes := []
  /-- the endpoint a PASV listener gets, or nothing if it cannot listen -/
  listen : Option Endpoint := none
  /-- the buffers a listing of a directory will be read in -/
  listing : ListFormat → Path → FtpState → Except Exception (List Bytes) := fun _ _ _ => .ok []
  mlstFacts : Path → FtpState → Except Exception Bytes := fun _ _ => .ok []
  fileTime : Path → Except Exception Bytes := fun _ => .ok []
  /-- whether the TLS handshake on the control connection succeeds -/
  handshake : Bool := true
  /-- whether the session manager has dropped the session -/
  expired : Bool := false

/-- What a handler asks of its session, with what it was told where a proof needs it. -/
inductive Call where
  | login (name pwd : Bytes) (result : Except Exception Client)
  | getPath (vpath : Bytes) (type : PathType) (result : Except Exception Path)
  | existsOnDisk (path : Path)
  | getPathForListing (vpath : Bytes)
  | openFile (path : Bytes) (operation : FileOperation)
  | deleteFile (path : Bytes)
  | createDirectory (path : Bytes)
  | deleteDirectory (path : Bytes)
  | rename (source target : Bytes)
  | getFileLen (path : Bytes)
  | setCwd (path : Bytes)
  | listDirectory (format : ListFormat) (path : Path)
  | getMlstFacts (path : Path)
  | getFileTime (path : Path)
  | listen
  | startTransfer (operation : FileOperation)

/-- What `ProcessCommands` does when a reply has been dealt with. -/
inductive AfterReply where
  /-- go on with the loop -/
  | loop
  /-- `Close()` -/
  | endSession
  /-- the handler has thrown: `close_pending_ = true` -/
  | closePending
  /-- leave the loop -/
  | leave
  deriving DecidableEq

/-- Where `ProcessCommands` waits. -/
inductive Control where
  | created
  | fetching
  | replying (next : AfterReply)
  | ended
  deriving DecidableEq

/-- Where `TransferFile` waits. -/
inductive TransferPhase where
  | spawned
  /-- the reply 150 is being written -/
  | announcing
  | connecting
  | accepting
  | handshaking
  | sending (buffer : Bytes)
  | receiving (buffer : WriteBuffer)
  /-- a reply is being written because the socket was closed behind a read of that many bytes -/
  | warning (bytesRead : Nat)
  /-- `AsyncShutdown` in `SendFile` or in `ReceiveFile` -/
  | shuttingDown (transfer : Transfer)
  /-- the reply 426 of `NotifyFailed` is being written -/
  | notifying
  /-- the last reply is being written; whether `abort_transfer_` is reset behind it -/
  | ending (resetAbort : Bool)
  deriving DecidableEq

/-- What `abort_transfer_` closes. -/
inductive AbortAction where
  | acceptor
  | transferSocket
  deriving DecidableEq

structure FtpSession where
  session : Session
  disk : Disk
  /-- the page size of the machine -/
  segmentSize : Nat
  state : FtpState := {}
  prevCmdName : Option FtpCmd := none
  control : Control := .created
  transferFile : Option TransferPhase := none
  currentFile : Option File := none
  /-- whether the socket of the transfer, when there is one, is open -/
  transferSck : Option Bool := none
  abortTransfer : Option AbortAction := none
  socketOpen : Bool := true
  closePending : Bool := false
  closed : Bool := false
  replyFailed : Bool := false
  /-- what the last handler has asked for -/
  calls : List Call := []
  /-- the replies whose writing has begun -/
  replies : List FtpReply := []
  /-- the bytes sent on the data connections -/
  sent : Bytes := []

abbrev FtpM := EStateM Exception FtpSession

namespace FtpSession

def note (call : Call) : FtpM Unit := modify fun ftp => { ftp with calls := ftp.calls ++ [call] }

def modifyState (f : FtpState → FtpState) : FtpM Unit :=
  modify fun ftp => { ftp with state := f ftp.state }

def getState : FtpM FtpState := return (← get).state

def onDisk {α : Type} (x : DiskM α) : FtpM α := fun ftp =>
  match x.run ftp.disk with
  | .ok a disk => .ok a { ftp with disk }
  | .error e disk => .error e { ftp with disk }

/-- `AuthManager::Login` is asked unless there is a client already. -/
def authenticateWithPasswd (env : Env) (name pwd : Bytes) : FtpM Bool := do
  let session := (← get).session
  if session.client.isNone then note (.login name pwd (env.login name pwd))
  let (accepted, session) ← lift (session.authenticateWithPasswd env.login name pwd)
  modify fun ftp => { ftp with session }
  return accepted

def getPath (vpath : Bytes) (type : PathType) : FtpM Path := do
  let result := (← get).session.getPath vpath type
  note (.getPath vpath type result)
  lift result

/-- A call of the session that works on the disk. -/
def onSession {α : Type} (call : Call) (x : Session → DiskM α) : FtpM α := do
  note call
  onDisk (x (← get).session)

def existsOnDisk (path : Path) : FtpM Bool :=
  onSession (.existsOnDisk path) fun _ => path.existsOnDisk

def getPathForListing (vpath : Bytes) : FtpM Path :=
  onSession (.getPathForListing vpath) (·.getPathForListing vpath)

def openFile (path : Bytes) (operation : FileOperation) : FtpM RawFile := do
  let segmentSize := (← get).segmentSize
  let file ← onSession (.openFile path operation) (·.openFile segmentSize path operation)
  return .mapped file

def deleteFile (path : Bytes) : FtpM Unit := onSession (.deleteFile path) (·.deleteFile path)

def createDirectory (path : Bytes) : FtpM Unit :=
  onSession (.createDirectory path) (·.createDirectory path)

def deleteDirectory (path : Bytes) : FtpM Unit :=
  onSession (.deleteDirectory path) (·.deleteDirectory path)

def rename (source target : Bytes) : FtpM Unit :=
  onSession (.rename source target) (·.rename source target)

def getFileLen (path : Bytes) : FtpM Nat := onSession (.getFileLen path) (·.getFileLen path)

def setCwd (path : Bytes) : FtpM Unit := do
  let session ← onSession (.setCwd path) (·.setCwd path)
  modify fun ftp => { ftp with session }

def getCwd : FtpM Bytes := return (← get).session.cwd

/-- `PasvAcceptorImpl::Listen`, on an acceptor that is stored already. -/
def listen (env : Env) : FtpM Unit := do
  note .listen
  modifyState fun state => { state with pasv := some {} }
  match env.listen with
  | none => throw .systemError
  | some address => modifyState fun state => { state with pasv := some ⟨true, address⟩ }

/-- The constructor of `WfdeFtpList`. -/
def listDirectory (env : Env) (format : ListFormat) (path : Path) : FtpM (List Bytes) := do
  note (.listDirectory format path)
  lift (env.listing format path (← getState))

def getMlstFacts (env : Env) (path : Path) : FtpM Bytes := do
  note (.getMlstFacts path)
  lift (env.mlstFacts path (← getState))

def getRfc3659FileTime (env : Env) (path : Path) : FtpM Bytes := do
  note (.getFileTime path)
  lift (env.fileTime path)

/-- `current_file_.reset()`. Its destructor closes the file. -/
def resetFile : FtpM Unit := do
  match (← get).currentFile with
  | none => return ()
  | some file =>
      modify fun ftp => { ftp with currentFile := none }
      let _ ← tryCatch (onDisk file.close) fun _ => return file

def startTransfer (file : RawFile) : FtpM Unit := do
  note (.startTransfer file.getOperation)
  resetFile
  modify fun ftp =>
    { ftp with
      currentFile := some (if ftp.state.getType = .bin then .raw file else .ascii file [])
      state :=
        { ftp.state with
          transfer := if file.getOperation = .read then .outgoing else .incoming }
      transferFile := some .spawned }

end FtpSession

end Wfde
