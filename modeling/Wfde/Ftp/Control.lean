import Wfde.AuthManager
import Wfde.Ftp.Commands
import Wfde.Ftp.Transfer
import Wfde.Lib.Run

/-!
# The command loop

`ProcessCommands` and what it calls, cut at its waits like the transfers, and the runs of a session:
any interleaving of the two coroutines, any request lines and any answers of the world.
-/

namespace Wfde

open Effect

def maxCmdNameLength : Nat := 8

def getFtpCommand (request : Bytes) : Except Exception FtpCmd :=
  let cmdName := (request.takeWhile isAlpha).map toUpper
  if cmdName.isEmpty then .error .parseError
  else if cmdName.length > maxCmdNameLength then .error .parseError
  else
    match FtpCmd.defaultCmds.find? fun cmd => cmd.getName = cmdName with
    | none => .error .parseError
    | some cmd => .ok cmd

/-- What is behind the command's name and the spaces that follow it. -/
def paramOf (cmd : FtpCmd) (request : Bytes) : Bytes :=
  (request.drop cmd.getName.length).dropWhile (· == space)

/-- How `OnCommand` takes a request. -/
inductive Dispatch where
  /-- the session is gone -/
  | ignore
  | refuse (reply : FtpReply)
  | handle (cmd : FtpCmd) (param : Bytes)

namespace FtpSession

section Dispatch

/-- The checks of `OnCommand`, in their order. -/
def refusal (ftp : FtpSession) (cmd : FtpCmd) : Option FtpReply :=
  if cmd.needPrevCmd.isSome ∧ ftp.prevCmdName ≠ cmd.needPrevCmd then
    some { code := .badSequenceOfCommands }
  else if cmd.mustBeLoggedIn ∧ !ftp.state.isLoggedIn then some { code := .notLoggedOn }
  else if cmd.mustNotBeLoggedIn ∧ ftp.state.isLoggedIn then
    some { code := .actionNotTaken, message := bytes "You are logged in!" }
  else if cmd.mustBeInTransfer ∧ !ftp.state.isInTransfer then
    some { code := .actionNotTaken, message := bytes "No active file transfer" }
  else if cmd.mustNotBeInTransfer ∧ ftp.state.isInTransfer then
    some { code := .actionNotTaken, message := bytes "Active file transfer!" }
  else if cmd.needPostOrPasv ∧ !ftp.state.havePasvOrPost then
    some
      { code := .badSequenceOfCommands
        message := bytes "Need PASV or POST before " ++ cmd.getName }
  else if cmd.mustHaveEncryption ∧ !ftp.state.ccIsEncrypted then
    some
      { code := .rejectedForPolicyReasons
        message := bytes "Encryption is required for " ++ cmd.getName }
  else none

def dispatch (ftp : FtpSession) (env : Env) (request : Bytes) : Dispatch :=
  match getFtpCommand request with
  | .error _ => .refuse { code := .syntaxError }
  | .ok cmd =>
      if env.expired then .ignore
      else
        match ftp.refusal cmd with
        | some reply => .refuse reply
        | none =>
            let param := paramOf cmd request
            if cmd.getSyntax.matches param then .handle cmd param
            else .refuse { code := .syntaxErrorInParams }

end Dispatch

section Coroutine

def callAbort : FtpM Unit := do
  match (← get).abortTransfer with
  | none => return ()
  | some .acceptor =>
      modifyState fun state =>
        { state with pasv := state.pasv.map fun pasv => { pasv with listening := false } }
  | some .transferSocket =>
      modify fun ftp => { ftp with transferSck := ftp.transferSck.map fun _ => false }

def close : FtpM Unit := modify fun ftp => { ftp with closePending := true, socketOpen := false }

def doClose (env : Env) : FtpM Unit := do
  if !(← get).closed then
    close
    modify fun ftp => { ftp with closed := true }
    if !env.expired then callAbort

/-- The end of `ProcessCommands`. -/
def leaveLoop (env : Env) : FtpM Unit := do
  doClose env
  modify fun ftp => { ftp with control := .ended }

/-- The head of the loop: `FetchNextCommand` is called or the loop is left. -/
def nextCommand (env : Env) : FtpM Unit := do
  let ftp ← get
  if !ftp.replyFailed && !ftp.closePending && !env.expired && ftp.socketOpen then
    modify fun ftp => { ftp with control := .fetching }
  else leaveLoop env

def afterReply (env : Env) : AfterReply → FtpM Unit
  | .loop => nextCommand env
  | .endSession => do
      close
      nextCommand env
  | .closePending => do
      modify fun ftp => { ftp with closePending := true }
      nextCommand env
  | .leave => leaveLoop env

/-- `Reply` in the control coroutine. -/
def controlReply (env : Env) (reply : FtpReply) (next : AfterReply) : FtpM Unit := do
  if canReply (← get) then
    modify fun ftp => { ftp with replies := ftp.replies ++ [reply], control := .replying next }
  else afterReply env next

/-- What `OnCommand` does when a handler has returned. -/
def handled (env : Env) (cmd : FtpCmd) (reply : Option FtpReply) : FtpM Unit := do
  modify fun ftp => { ftp with prevCmdName := some cmd }
  match reply with
  | some reply => controlReply env reply (if reply.endSession then .endSession else .loop)
  | none =>
      if (← getState).abortPending then
        callAbort
        modify fun ftp => { ftp with abortTransfer := none }
      nextCommand env

/-- The handler, and what `OnCommand` does when it has returned or thrown. -/
def handle (env : Env) (cmd : FtpCmd) (param : Bytes) : FtpM Unit := fun ftp =>
  match (cmd.onCmd env param).run { ftp with calls := [] } with
  | .ok reply ftp => (handled env cmd reply).run ftp
  | .error _ ftp =>
      (controlReply env { code := .bye, message := bytes "Internal server error" }
        .closePending).run ftp

def processRequest (env : Env) (request : Bytes) : FtpM Unit := do
  match (← get).dispatch env request with
  | .ignore => nextCommand env
  | .refuse reply => controlReply env reply .loop
  | .handle cmd param => handle env cmd param

/-- `ProcessCommands` up to its first wait. -/
def processCommands (env : Env) : FtpM Unit :=
  if env.expired then leaveLoop env else controlReply env { code := .ready } .loop

end Coroutine

end FtpSession

/-- What a coroutine of a session has been waiting for. -/
inductive Event where
  | start (env : Env)
  /-- `FetchNextCommand` returns a request or throws. -/
  | request (env : Env) (line : Bytes)
  | inputTooBig (env : Env)
  | noInput (env : Env)
  /-- The write of a reply on the control connection ends, well or not. -/
  | written (env : Env) (ok : Bool)
  | transfer (env : Env) (answer : Answer)

/-- Logins are for this authentication manager to answer. -/
def Env.against (env : Env) (auth : AuthManagerImpl) : Env := { env with login := auth.login }

def Event.against (auth : AuthManagerImpl) : Event → Event
  | .start env => .start (env.against auth)
  | .request env line => .request (env.against auth) line
  | .inputTooBig env => .inputTooBig (env.against auth)
  | .noInput env => .noInput (env.against auth)
  | .written env ok => .written (env.against auth) ok
  | .transfer env answer => .transfer (env.against auth) answer

/-- A handler that runs: the command, its parameter and what there was when it was called. -/
structure Handled where
  env : Env
  cmd : FtpCmd
  param : Bytes
  before : FtpSession

namespace Handled

def start (entry : Handled) : FtpSession := { entry.before with calls := [] }

def result (entry : Handled) : EStateM.Result Exception FtpSession (Option FtpReply) :=
  (entry.cmd.onCmd entry.env entry.param).run entry.start

/-- The session when the handler has ended. -/
def after (entry : Handled) : FtpSession :=
  Effect.after (entry.cmd.onCmd entry.env entry.param) entry.start

def calls (entry : Handled) : List Call := entry.after.calls

def reply (entry : Handled) : Option FtpReply :=
  match entry.result with
  | .ok reply _ => reply
  | .error _ _ => none

end Handled

namespace FtpSession

/-- A coroutine runs from one wait to the next. An event that nothing waits for changes nothing. -/
def step (ftp : FtpSession) : Event → FtpSession
  | .start env => if ftp.control = .created then after (processCommands env) ftp else ftp
  | .request env line =>
      if ftp.control = .fetching then after (processRequest env line) ftp else ftp
  | .inputTooBig env =>
      if ftp.control = .fetching then
        after (controlReply env
          { code := .bye
            message := bytes "Command too long. Did you forget to send CRLF? Bye." } .leave) ftp
      else ftp
  | .noInput env => if ftp.control = .fetching then after (leaveLoop env) ftp else ftp
  | .written env ok =>
      match ftp.control with
      | .replying next =>
          after (do
            replyWritten env ok
            afterReply env next) ftp
      | _ => ftp
  | .transfer env answer => after (resume env answer) ftp

/-- The handler that an event makes run. -/
def handlerOf (ftp : FtpSession) : Event → Option Handled
  | .request env line =>
      if ftp.control = .fetching then
        match ftp.dispatch env line with
        | .handle cmd param => some ⟨env, cmd, param, ftp⟩
        | _ => none
      else none
  | _ => none

def run (ftp : FtpSession) (events : List Event) : FtpSession := Machine.run step ftp events

def history (ftp : FtpSession) (events : List Event) : List Handled :=
  Machine.trace step handlerOf ftp events

/-- A session that has just been constructed, with the permissions of its interface. -/
def fresh (permissions : Permissions) (disk : Disk) (segmentSize : Nat) : FtpSession :=
  { session := { permissions }, disk, segmentSize }

end FtpSession

end Wfde
