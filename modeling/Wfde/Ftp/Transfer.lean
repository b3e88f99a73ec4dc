import Wfde.Ftp.SessionData

/-!
# Transfers

`TransferFile`, `SendFile`, `ReceiveFile` and what they call, cut at the points where the coroutine
waits for I/O: `resume` runs it from one wait to the next. The end of `Reply` is here too, since both
coroutines call it.
-/

namespace Wfde

open Effect

/-- What ends a wait. `done` is for a connection, a handshake, a write or a shutdown. -/
inductive Answer where
  | done
  | data (read : Bytes)
  | eof
  | failed
  deriving DecidableEq

def Answer.isDone : Answer → Bool
  | done => true
  | _ => false

namespace FtpSession

section Reply

/-- A reply is written unless the control connection is dead. -/
def canReply (ftp : FtpSession) : Bool := !ftp.replyFailed && ftp.socketOpen

def startTls (env : Env) : FtpM Unit :=
  if env.handshake then modifyState fun state => { state with ccIsEncrypted := true }
  else modify fun ftp => { ftp with socketOpen := false }

def runTask (env : Env) : PendingTask → FtpM Unit
  | .startTls => startTls env

/-- The end of `Reply`, once `AsyncWrite` has returned or thrown. -/
def replyWritten (env : Env) (written : Bool) : FtpM Unit := do
  if written then
    let tasks := (← getState).tasksPendingAfterReply
    modifyState fun state => { state with tasksPendingAfterReply := [] }
    tasks.forM (runTask env)
  else modify fun ftp => { ftp with replyFailed := true }

end Reply

section Files

variable {α : Type}

/-- A call of `current_file_`, which is set as long as a transfer runs. -/
def withFile (x : File → DiskM (α × File)) : FtpM α := do
  match (← get).currentFile with
  | none => throw .notFound
  | some file =>
      let (a, file) ← onDisk (x file)
      modify fun ftp => { ftp with currentFile := some file }
      return a

/-- What a socket reads into the buffer. -/
def storeFile (buffer : WriteBuffer) (read : Bytes) : FtpM Unit :=
  withFile fun file => do
    let file ← file.store read buffer
    return ((), file)

def setBytesWritten (count : Nat) : FtpM Unit :=
  withFile fun file => do
    let file ← file.setBytesWritten count
    return ((), file)

def closeFile : FtpM Unit :=
  withFile fun file => do
    let file ← file.close
    return ((), file)

/-- The next buffer that holds something; `reads` bounds the calls of `Read`. -/
def nextBuffer : Nat → FtpM (Option Bytes)
  | 0 => return none
  | reads + 1 => do
      match (← get).currentFile with
      | none => throw .notFound
      | some file =>
          if file.isEof then return none
          else
            let buffer ← withFile (·.read 0)
            if buffer.isEmpty then nextBuffer reads else return some buffer

end Files

section Coroutine

def wait (phase : TransferPhase) : FtpM Unit :=
  modify fun ftp => { ftp with transferFile := some phase }

/-- `Reply` in the transfer coroutine; `next` is what comes behind it when nothing is written. -/
def transferReply (reply : FtpReply) (phase : TransferPhase) (next : FtpM Unit) : FtpM Unit := do
  if canReply (← get) then
    modify fun ftp => { ftp with replies := ftp.replies ++ [reply] }
    wait phase
  else next

def cleanupTransfer : FtpM Unit := do
  modify fun ftp => { ftp with transferSck := none }
  resetFile
  modifyState FtpState.resetTransfer

/-- The end of `TransferFile`. -/
def endTransfer (resetAbort : Bool) : FtpM Unit := do
  if resetAbort then modify fun ftp => { ftp with abortTransfer := none }
  cleanupTransfer
  modify fun ftp => { ftp with transferFile := none }

def lastReply (resetAbort : Bool) (reply : FtpReply) : FtpM Unit :=
  transferReply reply (.ending resetAbort) (endTransfer resetAbort)

/-- The `try` block around `SendFile` and `ReceiveFile`. -/
def tryFile (body : FtpM Unit) : FtpM Unit :=
  tryCatch body fun _ => lastReply true { code := .transferAborted }

def notifyFailed : FtpM Unit :=
  transferReply { code := .transferAborted } .notifying (endTransfer true)

/-- What `NotifyFailed` does behind its first reply. -/
def notified : FtpM Unit := do
  if (← getState).abortPending then
    modifyState fun state => { state with abortPending := false }
    lastReply true { code := .closingDataConnection, message := bytes "ABOR command successful" }
  else endTransfer true

/-- The send loop up to its next wait. -/
def sendLoop : FtpM Unit := do
  let reads := match (← get).currentFile with
    | some file => file.inner.readsLeft
    | none => 0
  match ← nextBuffer reads with
  | some buffer => wait (.sending buffer)
  | none => wait (.shuttingDown .outgoing)

/-- The receive loop up to its next wait. -/
def receiveLoop : FtpM Unit := do
  let buffer ← withFile (·.write 0)
  wait (.receiving buffer)

def sendFile : FtpM Unit := do
  if (← get).transferSck = some true then sendLoop else notifyFailed

def receiveFile : FtpM Unit := do
  if (← get).transferSck = some true then receiveLoop else notifyFailed

/-- The rest of the loop body behind a read. -/
def commit (bytesRead : Nat) : FtpM Unit := do
  setBytesWritten bytesRead
  receiveLoop

/-- A read that succeeded. -/
def received (env : Env) (buffer : WriteBuffer) (read : Bytes) : FtpM Unit := do
  storeFile buffer read
  if env.expired then endTransfer true
  else if (← get).transferSck = some true then commit read.length
  else transferReply { code := .transferAborted } (.warning read.length) (commit read.length)

/-- What SendFile and ReceiveFile do when all is transferred. -/
def finishFile (text : Bytes) : FtpM Unit := do
  modify fun ftp => { ftp with transferSck := some false }
  closeFile
  let path := (← getState).requestedPath
  lastReply true { code := .closingDataConnection, message := text ++ path }

def cantOpenDataConn : FtpM Unit := lastReply false { code := .cantOpenDataConn }

def transferData : FtpM Unit := do
  let state ← getState
  tryFile (if state.transfer = .outgoing then sendFile else receiveFile)

/-- The data connection is there. -/
def connected : FtpM Unit := do
  modify fun ftp => { ftp with abortTransfer := some .transferSocket, transferSck := some true }
  if (← getState).encryptTransfers then wait .handshaking else transferData

/-- What comes behind the reply 150. -/
def announced (env : Env) : FtpM Unit := do
  let ftp ← get
  if ftp.replyFailed || env.expired || ftp.closed || ftp.closePending then
    resetFile
    modifyState FtpState.resetTransfer
    modify fun ftp => { ftp with transferFile := none }
  else if ftp.state.initiation = .port then wait .connecting
  else
    modify fun ftp => { ftp with abortTransfer := some .acceptor }
    wait .accepting

/-- `TransferFile` from one wait to the next. -/
def resume (env : Env) (answer : Answer) : FtpM Unit := do
  match (← get).transferFile with
  | none => return ()
  | some .spawned => transferReply { code := .openingConnection } .announcing (announced env)
  | some .announcing =>
      replyWritten env answer.isDone
      announced env
  | some .connecting => if answer.isDone && !env.expired then connected else cantOpenDataConn
  | some .accepting => if answer.isDone then connected else cantOpenDataConn
  | some .handshaking => if answer.isDone then transferData else cantOpenDataConn
  | some (.sending buffer) =>
      if answer.isDone then
        modify fun ftp => { ftp with sent := ftp.sent ++ buffer }
        if env.expired then endTransfer true else tryFile sendLoop
      else tryFile notifyFailed
  | some (.receiving buffer) =>
      match answer with
      | .data read => tryFile (received env buffer read)
      | .eof =>
          tryFile do
            setBytesWritten 0
            wait (.shuttingDown .incoming)
      | _ => tryFile notifyFailed
  | some (.warning bytesRead) =>
      replyWritten env answer.isDone
      tryFile (commit bytesRead)
  | some (.shuttingDown transfer) =>
      -- a failed shutdown does not matter to SendFile
      if transfer = .outgoing then tryFile (finishFile (bytes "Successfully sent "))
      else if answer.isDone then tryFile (finishFile (bytes "Successfully received "))
      else tryFile notifyFailed
  | some .notifying =>
      replyWritten env answer.isDone
      notified
  | some (.ending resetAbort) =>
      replyWritten env answer.isDone
      endTransfer resetAbort

end Coroutine

end FtpSession

end Wfde
