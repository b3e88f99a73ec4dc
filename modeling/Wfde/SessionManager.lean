import Mathlib.Logic.Function.Basic
import Wfde.Entity
import Wfde.Lib.Run

/-!
# The session manager

`WfdeSessionManager`: the sessions by their ids, the stub that each thread has for its own sessions,
the timers that check on them, and the closes that the checks put off.
-/

namespace Wfde

/-- What the manager asks a `WfdeSession`. Two pointers to sessions are equal if they are to the
session with one id. -/
structure ManagedSession (threads : Nat) where
  uuid : Uuid
  threadId : Fin threads
  deriving DecidableEq

/-- `serial` says which of the stubs that have been made this is. -/
structure ThreadStub (threads : Nat) where
  serial : Nat
  thdSessions : List (ManagedSession threads) := []

namespace ThreadStub

variable {threads : Nat}

def attachSession (session : ManagedSession threads) (stub : ThreadStub threads) :
    ThreadStub threads :=
  { stub with thdSessions := stub.thdSessions ++ [session] }

def detachSession (session : ManagedSession threads) (stub : ThreadStub threads) :
    ThreadStub threads :=
  { stub with thdSessions := stub.thdSessions.erase session }

def isEmpty (stub : ThreadStub threads) : Bool := stub.thdSessions.isEmpty

end ThreadStub

/-- The task `Housekeeping: Close Session`. It has the stub that has posted it by its address. -/
structure CloseTask where
  stub : Nat
  uuid : Uuid

/-- `sessions` has every session under its own id. `timers` and `posted` are what the pipelines have
been given and have not run yet. -/
structure WfdeSessionManager (threads : Nat) where
  sessions : List (ManagedSession threads) := []
  stubs : Fin threads → Option (ThreadStub threads) := fun _ => none
  stubsMade : Nat := 0
  timers : List (Fin threads) := []
  posted : List CloseTask := []

namespace WfdeSessionManager

variable {threads : Nat}

def setStub (manager : WfdeSessionManager threads) (id : Fin threads)
    (stub : Option (ThreadStub threads)) : WfdeSessionManager threads :=
  { manager with stubs := Function.update manager.stubs id stub }

def scheduleThdTimer (manager : WfdeSessionManager threads) (id : Fin threads) :
    WfdeSessionManager threads :=
  { manager with timers := manager.timers ++ [id] }

/-- Makes sure that there is the stub of a thread. -/
def ensureStub (manager : WfdeSessionManager threads) (id : Fin threads) :
    WfdeSessionManager threads :=
  match manager.stubs id with
  | some _ => manager
  | none =>
      scheduleThdTimer
        { manager.setStub id (some { serial := manager.stubsMade }) with
          stubsMade := manager.stubsMade + 1 } id

/-- The session is the one that the constructor of `WfdeSession` has made for the parameters. -/
def createSession (manager : WfdeSessionManager threads) (session : ManagedSession threads) :
    WfdeSessionManager threads :=
  let manager := manager.ensureStub session.threadId
  let stub := (manager.stubs session.threadId).map (ThreadStub.attachSession session)
  { manager.setStub session.threadId stub with
    sessions := manager.sessions.filter (·.uuid ≠ session.uuid) ++ [session] }

/-- `lock` of the weak pointer. But for the calls that are working on a session, only the stubs keep
it. -/
def isHeld (manager : WfdeSessionManager threads) (session : ManagedSession threads) : Bool :=
  (List.finRange threads).any fun id =>
    (manager.stubs id).any fun stub => stub.thdSessions.contains session

def getSession (manager : WfdeSessionManager threads) (id : Uuid) :
    Except Exception (ManagedSession threads) :=
  match manager.sessions.find? (·.uuid = id) with
  | some session => if manager.isHeld session then .ok session else .error .notFound
  | none => .error .notFound

/-- Closing the socket does not concern the manager. A missing stub is only logged. -/
def closeSession (manager : WfdeSessionManager threads) (id : Uuid) :
    Except Exception (WfdeSessionManager threads) :=
  match manager.getSession id with
  | .error e => .error e
  | .ok ref =>
      let sessions := manager.sessions.filter (·.uuid ≠ id)
      match manager.stubs ref.threadId with
      | some stub =>
          .ok { manager.setStub ref.threadId (some (stub.detachSession ref)) with sessions }
      | none => .ok { manager with sessions }

/-- `OnThdTimer` of the stub: a close is posted for each session that `OnHousekeeping` is not content
with. -/
def housekeeping (manager : WfdeSessionManager threads) (stub : ThreadStub threads)
    (timedOut : ManagedSession threads → Bool) : WfdeSessionManager threads :=
  { manager with
    posted := manager.posted
      ++ (stub.thdSessions.filter timedOut).map fun session => ⟨stub.serial, session.uuid⟩ }

def onThdTimer (manager : WfdeSessionManager threads) (id : Fin threads)
    (timedOut : ManagedSession threads → Bool) : WfdeSessionManager threads :=
  match manager.stubs id with
  | none => manager
  | some stub =>
      if stub.isEmpty then manager.setStub id none
      else (manager.housekeeping stub timedOut).scheduleThdTimer id

/-- The stub that a posted task refers to is still there. -/
def isThere (manager : WfdeSessionManager threads) (serial : Nat) : Bool :=
  (List.finRange threads).any fun id => (manager.stubs id).any fun stub => stub.serial == serial

inductive ManagerEvent (threads : Nat) where
  /-- `CreateSession` -/
  | create (session : ManagedSession threads)
  /-- `CloseSession`, whose exceptions go to the caller -/
  | close (id : Uuid)
  /-- a timer that is due -/
  | tick (id : Fin threads) (timedOut : ManagedSession threads → Bool)
  /-- the posted task at an index -/
  | task (index : Nat)

/-- A close that fails changes nothing. -/
def tryClose (manager : WfdeSessionManager threads) (id : Uuid) : WfdeSessionManager threads :=
  match manager.closeSession id with
  | .ok closed => closed
  | .error _ => manager

/-- A task looks for the manager in the stub it has been posted by. If that is gone, what it does is
undefined: there is no state to go on with. -/
def runTask (manager : WfdeSessionManager threads) (task : CloseTask) :
    Option (WfdeSessionManager threads) :=
  if manager.isThere task.stub then some (manager.tryClose task.uuid) else none

/-- A timer or a task that is not there does not run. -/
def step (manager : WfdeSessionManager threads) :
    ManagerEvent threads → Option (WfdeSessionManager threads)
  | .create session => some (manager.createSession session)
  | .close id => some (manager.tryClose id)
  | .tick id timedOut =>
      if id ∈ manager.timers then
        some ({ manager with timers := manager.timers.erase id }.onThdTimer id timedOut)
      else some manager
  | .task index =>
      match manager.posted[index]? with
      | none => some manager
      | some task => { manager with posted := manager.posted.eraseIdx index }.runTask task

end WfdeSessionManager

end Wfde
