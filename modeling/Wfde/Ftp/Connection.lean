import Wfde.Ftp.Control
import Wfde.SessionInput

/-!
# The control connection

A session together with the input buffer that its command loop fetches requests from. Every byte
carries whether it came through TLS, which neither the buffer nor the session can see.
-/

namespace Wfde

structure ReceivedByte where
  val : UInt8
  secure : Bool
  deriving DecidableEq

/-- What the calls of `ReadSome` deliver while the connection is encrypted, or is not. -/
def receive (secure : Bool) (reads : List Bytes) : List (List ReceivedByte) :=
  reads.map fun read => read.map fun val => ⟨val, secure⟩

structure Connection where
  ftp : FtpSession
  input : WfdeFtpSessionInput ReceivedByte
  /-- `FetchNextCommand` has moved bytes from outside its buffer. -/
  crashed : Bool := false

/-- The command loop gets what it waits for: a call of `FetchNextCommand` ends. Nothing else touches
the input, and as long as the loop waits for it the encryption stays as it is. -/
inductive ConnectionEvent where
  | fetch (env : Env) (reads : List Bytes)
  | start (env : Env)
  | written (env : Env) (ok : Bool)
  | transfer (env : Env) (answer : Answer)

/-- A call of `FetchNextCommand`. -/
structure Fetch where
  env : Env
  reads : List Bytes
  before : Connection

namespace Fetch

def encrypted (fetch : Fetch) : Bool := fetch.before.ftp.state.ccIsEncrypted

def result (fetch : Fetch) : Fetched ReceivedByte :=
  fetch.before.input.fetchNextCommand ReceivedByte.val (receive fetch.encrypted fetch.reads)

/-- What the command loop makes of the result. -/
def event (fetch : Fetch) : Option Event :=
  match fetch.result.outcome with
  | .request line => some (.request fetch.env (line.map ReceivedByte.val))
  | .inputTooBig => some (.inputTooBig fetch.env)
  | .noInput => some (.noInput fetch.env)
  | .overrun => none

end Fetch

namespace Connection

/-- The call that an event ends, if the loop waits in one. -/
def fetchOf (c : Connection) : ConnectionEvent → Option Fetch
  | .fetch env reads =>
      let fetch : Fetch := ⟨env, reads, c⟩
      if c.ftp.control = .fetching ∧ c.crashed = false
          ∧ WfdeFtpSessionInput.ReadsFit fetch.result then some fetch
      else none
  | _ => none

/-- The event for the session, if the process lives on. -/
def eventOf (c : Connection) (event : ConnectionEvent) : Option Event :=
  if c.crashed then none
  else
    match event with
    | .fetch _ _ => (c.fetchOf event).bind Fetch.event
    | .start env => some (.start env)
    | .written env ok => some (.written env ok)
    | .transfer env answer => some (.transfer env answer)

def step (c : Connection) (event : ConnectionEvent) : Connection where
  ftp :=
    match c.eventOf event with
    | some event => c.ftp.step event
    | none => c.ftp
  input :=
    match c.fetchOf event with
    | some fetch => fetch.result.input
    | none => c.input
  crashed :=
    match c.fetchOf event with
    | some fetch => fetch.event.isNone
    | none => c.crashed

def run (c : Connection) (events : List ConnectionEvent) : Connection :=
  Machine.run step c events

def fetches (c : Connection) (events : List ConnectionEvent) : List Fetch :=
  Machine.trace step fetchOf c events

/-- A connection that has just been accepted; the buffer is not initialised. -/
def fresh (permissions : Permissions) (disk : Disk) (segmentSize : Nat)
    (storage : {b : List ReceivedByte // b.length = inputBufferSize}) : Connection where
  ftp := FtpSession.fresh permissions disk segmentSize
  input := { inputBuffer := storage.val }

end Connection

end Wfde
