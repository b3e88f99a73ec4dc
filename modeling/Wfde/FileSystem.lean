import Wfde.Path
import Wfde.Lib.Effect
import Mathlib.Logic.Function.Basic

/-!
# The file system

What the server asks of `boost::filesystem`, `std::ofstream` and `boost::interprocess`, and what
these do to the files below the physical paths. The operating system may refuse any kind of access
to any path, for reasons that are not modelled (no right to it, no parent directory, a directory
that is not empty).
-/

namespace Wfde

open Effect

inductive Node where
  | file (content : Bytes)
  | directory
  deriving DecidableEq

inductive Access where
  | status
  | read
  | write
  deriving DecidableEq

namespace Node

def isRegularFile : Option Node → Bool
  | some (.file _) => true
  | _ => false

def isDirectory : Option Node → Bool
  | some .directory => true
  | _ => false

end Node

structure FileSystem where
  node : PPath → Option Node
  refuses : Access → PPath → Bool

/-- A call that changes the file system. -/
inductive Primitive where
  | resizeFile (path : PPath) (size : Nat)
  | touch (path : PPath)
  | remove (path : PPath)
  | createDirectory (path : PPath)
  | rename (source target : PPath)
  deriving DecidableEq

/-- The first `size` bytes, with zeros behind a content that is shorter. -/
def resized (content : Bytes) (size : Nat) : Bytes :=
  content.take size ++ List.replicate (size - content.length) 0

@[simp]
theorem length_resized (content : Bytes) (size : Nat) : (resized content size).length = size := by
  simp only [resized, List.length_append, List.length_take, List.length_replicate]
  omega

namespace FileSystem

def set (fs : FileSystem) (path : PPath) (node : Option Node) : FileSystem :=
  { fs with node := Function.update fs.node path node }

@[simp]
theorem set_node_self (fs : FileSystem) (path : PPath) (node : Option Node) :
    (fs.set path node).node path = node := by
  simp [set]

theorem set_node_of_ne (fs : FileSystem) {path other : PPath} (node : Option Node)
    (hne : other ≠ path) : (fs.set path node).node other = fs.node other := by
  simp [set, hne]

/-- What the call makes of the file system, or nothing when the operating system fails it. A
directory that is moved takes along what is below it. -/
def perform (fs : FileSystem) : Primitive → Option FileSystem
  | .resizeFile path size =>
      match fs.node path with
      | some (.file content) =>
          if fs.refuses .write path then none
          else some (fs.set path (some (.file (resized content size))))
      | _ => none
  | .touch path =>
      if fs.refuses .write path then none
      else
        match fs.node path with
        | none => some (fs.set path (some (.file [])))
        | some (.file _) => some (fs.set path (some (.file [])))
        | some .directory => none
  | .remove path =>
      match fs.node path with
      | none => some fs
      | some _ => if fs.refuses .write path then none else some (fs.set path none)
  | .createDirectory path =>
      match fs.node path with
      | none => if fs.refuses .write path then none else some (fs.set path (some .directory))
      | some .directory => some fs
      | some (.file _) => none
  | .rename source target =>
      if fs.node source = none ∨ fs.refuses .write source ∨ fs.refuses .write target
          ∨ source <+: target then none
      else
        some { fs with
          node := fun path =>
            if target <+: path then fs.node (source ++ path.drop target.length)
            else if source <+: path then none
            else fs.node path }

end FileSystem

/-- The file system together with the calls that were made to change it. -/
structure Disk where
  files : FileSystem
  performed : List Primitive

/-- A function of the server that works on the file system. An exception leaves what was done. -/
abbrev DiskM := EStateM Exception Disk

namespace Disk

def status (path : PPath) : DiskM (Option Node) := fun disk =>
  if disk.files.refuses .status path then .error .filesystemError disk
  else .ok (disk.files.node path) disk

def fileSize (path : PPath) : DiskM Nat := fun disk =>
  if disk.files.refuses .status path then .error .filesystemError disk
  else
    match disk.files.node path with
    | some (.file content) => .ok content.length disk
    | _ => .error .filesystemError disk

/-- A call that reports in an `error_code` whether the operating system has failed it. -/
def perform (primitive : Primitive) : DiskM Bool := fun disk =>
  match disk.files.perform primitive with
  | some files => .ok true ⟨files, disk.performed ++ [primitive]⟩
  | none => .ok false ⟨disk.files, disk.performed ++ [primitive]⟩

def performOrThrow (primitive : Primitive) : DiskM Unit := do
  require (← perform primitive) .filesystemError

end Disk

namespace Disk

theorem status_eq_ok {path : PPath} {disk disk' : Disk} {node : Option Node} :
    (status path).run disk = .ok node disk'
      ↔ disk.files.refuses .status path = false ∧ disk.files.node path = node ∧ disk = disk' := by
  change status path disk = _ ↔ _
  unfold status
  cases disk.files.refuses .status path <;> simp

theorem keeps_status (path : PPath) : Keeps Eq (status path) := by
  intro disk
  unfold after EStateM.run status
  cases disk.files.refuses .status path <;> rfl

theorem keeps_fileSize (path : PPath) : Keeps Eq (fileSize path) := by
  intro disk
  unfold after EStateM.run fileSize
  cases disk.files.refuses .status path with
  | true => rfl
  | false =>
      cases disk.files.node path with
      | none => rfl
      | some node => cases node <;> rfl

theorem after_perform (primitive : Primitive) (disk : Disk) :
    after (perform primitive) disk
      = ⟨(disk.files.perform primitive).getD disk.files, disk.performed ++ [primitive]⟩ := by
  unfold after EStateM.run perform
  cases disk.files.perform primitive <;> rfl

end Disk

def PathType.isTypeOf : PathType → Option Node → Bool
  | .file, node => Node.isRegularFile node
  | .directory, node => Node.isDirectory node
  | .any, node => node.isSome

namespace Path

/-- `WfdePath::Exists` -/
def existsOnDisk (path : Path) : DiskM Bool := do
  let node ← Disk.status path.ppath
  return path.type.isTypeOf node

theorem existsOnDisk_eq_ok {path : Path} {disk disk' : Disk} {found : Bool}
    (h : path.existsOnDisk.run disk = .ok found disk') :
    disk = disk' ∧ disk.files.refuses .status path.ppath = false
      ∧ path.type.isTypeOf (disk.files.node path.ppath) = found := by
  obtain ⟨node, _, hstatus, h⟩ := bind_eq_ok.mp h
  obtain ⟨hallowed, rfl, rfl⟩ := Disk.status_eq_ok.mp hstatus
  obtain ⟨rfl, rfl⟩ := pure_eq_ok.mp h
  exact ⟨rfl, hallowed, rfl⟩

theorem keeps_existsOnDisk (path : Path) : Keeps Eq path.existsOnDisk :=
  keeps_bind (Disk.keeps_status path.ppath) fun _ => keeps_pure _

end Path

end Wfde
