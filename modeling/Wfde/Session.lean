import Wfde.File
import Wfde.Permissions

/-!
# Sessions

`WfdeSession`: the working directory, the permissions and the client of a connection, and the
operations on virtual paths, each of which checks the permissions of the path it resolves.
-/

namespace Wfde

open Effect

structure Client where
  loginName : Bytes
  permissions : Option Permissions

structure Session where
  cwd : Bytes := [slash]
  permissions : Permissions
  client : Option Client := none

namespace Session

/-- Resolves what the client gave against the working directory and the permissions. -/
def getPath (self : Session) (vpath : Bytes) (type : PathType) : Except Exception Path := do
  let normal ← Path.normalize vpath self.cwd
  let (bestMatch, remaining) ← self.permissions.getPath normal (some [])
  return bestMatch.createSubpath (remaining.getD []) type

def getPathForListing (self : Session) (vpath : Bytes) : DiskM Path := do
  let path ← lift (self.getPath vpath .directory)
  require (← path.existsOnDisk) .notFound
  require path.canList .accessDenied
  return path

/-- The authorisation of `OpenFile`. -/
def authorise (path : Path) : FileOperation → Except Exception Unit
  | .append => if path.canWrite then .ok () else .error .accessDenied
  | .read => if path.canRead then .ok () else .error .accessDenied
  | .writeNew =>
      if path.canCreateFile then
        if path.canWrite then .ok () else .error .accessDenied
      else .error .accessDenied
  | .write => if path.canWrite then .ok () else .error .accessDenied

def openFile (self : Session) (segmentSize : Nat) (path : Bytes) (operation : FileOperation) :
    DiskM WfdeFile := do
  let filePath ← lift (self.getPath path .file)
  lift (authorise filePath operation)
  WfdeFile.make segmentSize filePath.ppath operation

def deleteFile (self : Session) (path : Bytes) : DiskM Unit := do
  let filePath ← lift (self.getPath path .file)
  require filePath.canDeleteFile .accessDenied
  require (← filePath.existsOnDisk) .notFound
  require (← Disk.perform (.remove filePath.ppath)) .accessDenied

def createDirectory (self : Session) (path : Bytes) : DiskM Unit := do
  let dirPath ← lift (self.getPath path .directory)
  require dirPath.canCreateDir .accessDenied
  require (!(← dirPath.existsOnDisk)) .alreadyExist
  require (← Disk.perform (.createDirectory dirPath.ppath)) .accessDenied

def deleteDirectory (self : Session) (path : Bytes) : DiskM Unit := do
  let dirPath ← lift (self.getPath path .directory)
  require dirPath.canDeleteDir .accessDenied
  require (← dirPath.existsOnDisk) .notFound
  require (← Disk.perform (.remove dirPath.ppath)) .accessDenied

/-- What `Rename` asks of the target in another directory. -/
def authoriseMove (fromPath toPath : Path) : DiskM Unit :=
  if fromPath.isSameParentDir toPath then pure ()
  else do
    let isDir := Node.isDirectory (← Disk.status fromPath.ppath)
    require (!(isDir && !toPath.canCreateDir)) .accessDenied
    require (!(!isDir && !toPath.canCreateFile)) .accessDenied

def rename (self : Session) (source target : Bytes) : DiskM Unit := do
  let fromPath ← lift (self.getPath source .any)
  let toPath ← lift (self.getPath target .any)
  require fromPath.canRename .accessDenied
  require (← fromPath.existsOnDisk) .notFound
  require (!(← toPath.existsOnDisk)) .alreadyExist
  authoriseMove fromPath toPath
  require (← Disk.perform (.rename fromPath.ppath toPath.ppath)) .accessDenied

def getFileLen (self : Session) (path : Bytes) : DiskM Nat := do
  let filePath ← lift (self.getPath path .file)
  require (!(!filePath.canList && !filePath.canRead)) .accessDenied
  tryCatch (Disk.fileSize filePath.ppath) fun _ => throw .notFound

def setCwd (self : Session) (path : Bytes) : DiskM Session := do
  let dir ← lift (self.getPath path .directory)
  require dir.canEnter .accessDenied
  require (← dir.existsOnDisk) .accessDenied
  return { self with cwd := dir.vpath }

/-- The name that `GetVpaths` takes from an entry; `none` where it goes on to the next one. The end of
the name is looked for behind its first character. -/
def nameBelow (path vpath : Bytes) : Option Bytes :=
  if vpath.length ≤ path.length then none
  else if vpath.take path.length ≠ path then none
  else if vpath.getD (path.length - 1) 0 ≠ slash then none
  else
    let pos := path.length + 1 + ((vpath.drop (path.length + 1)).takeWhile (· != slash)).length
    some ((vpath.drop path.length).take (pos - path.length))

/-- `haves` holds the names that `rval` does. -/
def addName (path : Bytes) (rval : List Bytes) (entry : Path) : List Bytes :=
  match nameBelow path entry.vpath with
  | none => rval
  | some name => if rval.contains name then rval else rval ++ [name]

def getVpaths (self : Session) (path : Bytes) : List Bytes :=
  self.permissions.paths.foldl (addName path) []

/-- `login` is `AuthManager::Login`. The documented refusals are caught. -/
def authenticateWithPasswd (login : Bytes → Bytes → Except Exception Client) (self : Session)
    (name pwd : Bytes) : Except Exception (Bool × Session) :=
  if self.client.isSome then .error .alreadyLoggedIn
  else
    match login name pwd with
    | .ok client =>
        let permissions := match client.permissions with
          | some perms => perms.copy.merge self.permissions
          | none => self.permissions
        .ok (true, { self with permissions, client := some client })
    | .error .badCredentials => .ok (false, self)
    | .error .needPasswd => .ok (false, self)
    | .error .notFound => .ok (false, self)
    | .error e => .error e

end Session

end Wfde
