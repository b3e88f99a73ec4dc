import Wfde.Ftp.Control
import Wfde.Lib.Separation
import Wfde.PrepareServers
import Wfde.SessionManager

/-!
# A server

The sessions of a running server. A connection to a host becomes a session with the permissions of
that host, which asks the host's authentication manager about logins, and all sessions work on one
disk. Every session is kept under its id; a coroutine of one of them runs at a time.
-/

namespace Wfde

open Separation

/-- A session and the host it was made by. -/
structure Served where
  host : WfdeHost
  ftp : FtpSession

namespace WfdeHost

/-- `HandleConnection`. The walk over the parents of a protocol takes one pass. -/
def handleConnection (host : WfdeHost) (disk : Disk) (segmentSize : Nat) : Option Served :=
  match host.protocolEntity.getEffectivePermissions 1 with
  | some (.ok permissions) => some ⟨host, FtpSession.fresh permissions disk segmentSize⟩
  | _ => none

/-- `OnConnected` -/
def onConnected (host : WfdeHost) (running : Bool) (disk : Disk) (segmentSize : Nat) :
    Option Served :=
  if running then host.handleConnection disk segmentSize else none

end WfdeHost

/-- What happens to the session with an id. -/
inductive ServerEvent where
  /-- a client connects to a host, whose protocol has been started or stopped -/
  | connected (host : WfdeHost) (running : Bool) (segmentSize : Nat)
  | session (event : Event)

/-- A new id is the id of no session, and a session that is there is not connected again. -/
def serve (session : Option Served) (disk : Disk) (event : ServerEvent) : Option Served × Disk :=
  match session, event with
  | none, .connected host running segmentSize => (host.onConnected running disk segmentSize, disk)
  | none, .session _ => (none, disk)
  | some served, .connected _ _ _ => (some served, disk)
  | some served, .session event =>
      let ftp := { served.ftp with disk }.step (event.against served.host.authManager)
      (some { served with ftp }, ftp.disk)

abbrev ServedSessions := World Uuid (Option Served) Disk

namespace ServedSessions

/-- Before anybody has connected. -/
def idle (disk : Disk) : ServedSessions := ⟨disk, fun _ => none⟩

def step (w : ServedSessions) (event : Uuid × ServerEvent) : ServedSessions := turn serve w event

def run (w : ServedSessions) (events : List (Uuid × ServerEvent)) : ServedSessions :=
  Machine.run step w events

end ServedSessions

end Wfde
