import Wfde.Ftp.Control
import Wfde.Lib.SharedStream

/-!
# The control connection

Both coroutines write their replies to the control connection. `Reply` builds the text in
`reply_strings_[0]`, a member of the session, and `AsyncWrite` reads it from there until it returns,
so a reply of the other coroutine takes the memory away from a write that is in progress. Behind a
TLS handshake the bytes are those that enter the TLS stream.
-/

namespace Wfde

inductive Coroutine where
  /-- `ProcessCommands` -/
  | control
  /-- `TransferFile` -/
  | transfer
  deriving DecidableEq

namespace Coroutine

def other : Coroutine → Coroutine
  | control => transfer
  | transfer => control

/-- `AsyncWrite` returns or throws in the coroutine. -/
def written (env : Env) (ok : Bool) : Coroutine → Event
  | control => .written env ok
  | transfer => .transfer env (if ok then .done else .failed)

end Coroutine

/-- The coroutine that has been waiting for an event. -/
def Event.coroutine : Event → Coroutine
  | .transfer _ _ => .transfer
  | _ => .control

/-- A phase in which the transfer coroutine waits for `AsyncWrite` of a reply. -/
def TransferPhase.isReply : TransferPhase → Bool
  | .announcing | .warning _ | .notifying | .ending _ => true
  | _ => false

def Control.isReply : Control → Bool
  | .replying _ => true
  | _ => false

namespace FtpSession

/-- The coroutine waits in `Reply`. -/
def isReplying (ftp : FtpSession) : Coroutine → Bool
  | .control => ftp.control.isReply
  | .transfer => ftp.transferFile.any TransferPhase.isReply

/-- The reply whose writing begins when a coroutine goes on. -/
def newReply (ftp : FtpSession) (event : Event) : Option FtpReply :=
  (ftp.step event).replies[ftp.replies.length]?

end FtpSession

structure ControlWire where
  ftp : FtpSession
  /-- the calls of `AsyncWrite` that have not returned, and the bytes sent -/
  stream : SharedStream Coroutine UInt8 := {}

inductive WireEvent where
  /-- A coroutine that does not wait in `Reply` goes on. -/
  | resumed (event : Event)
  /-- The socket takes at most that many more bytes of a reply. -/
  | sent (who : Coroutine) (count : Nat)
  /-- `AsyncWrite` returns. -/
  | returned (who : Coroutine) (env : Env)
  /-- `AsyncWrite` throws. -/
  | failed (who : Coroutine) (env : Env)

namespace ControlWire

variable (reused : Bytes → Nat → UInt8 → UInt8)

/-- What a coroutine is resumed with, if the event can happen. -/
def resumes (wire : ControlWire) : WireEvent → Option Event
  | .resumed event => if wire.ftp.isReplying event.coroutine then none else some event
  | .sent _ _ => none
  | .returned who env =>
      if (wire.stream.writes who).any (·.isSent) then some (who.written env true) else none
  | .failed who env =>
      if (wire.stream.writes who).any (!·.isSent) then some (who.written env false) else none

/-- A coroutine goes on to its next wait. `reused` says what the memory of a text that is still
being written reads once `reply_strings_[0]` has been assigned another text. -/
def resume (wire : ControlWire) (event : Event) : ControlWire :=
  let stream := wire.stream.finish event.coroutine
  { ftp := wire.ftp.step event
    stream := match wire.ftp.newReply event with
      | some reply => stream.start reused event.coroutine reply.text
      | none => stream }

def step (wire : ControlWire) (event : WireEvent) : ControlWire :=
  match wire.resumes event with
  | some event => resume reused wire event
  | none =>
      match event with
      | .sent who count =>
          if wire.ftp.socketOpen then { wire with stream := wire.stream.send who count } else wire
      | _ => wire

def run (wire : ControlWire) (events : List WireEvent) : ControlWire :=
  Machine.run (step reused) wire events

/-- A reply begins only when the other coroutine has nothing left to send. -/
def inTurn (wire : ControlWire) (event : WireEvent) : Bool :=
  match wire.resumes event with
  | some event =>
      (wire.ftp.newReply event).isNone
        || (wire.stream.writes event.coroutine.other).all (·.isSent)
  | none => true

end ControlWire

end Wfde
