import Wfde.Proof.Authorisation

/-!
# Renaming in one directory

`IsSameParentDir` splits its own path twice and compares ranges of different lengths, so it never
finds two paths in one directory, and `Rename` asks for the right to create in every case.
-/

namespace Wfde

open Effect

namespace Path

/-- Two virtual paths with the same components but for the last one. -/
def SameParentDir (a b : Path) : Prop :=
  split a.vpath ≠ [] ∧ (split a.vpath).length = (split b.vpath).length
    ∧ (split a.vpath).dropLast = (split b.vpath).dropLast

instance (a b : Path) : Decidable (SameParentDir a b) :=
  inferInstanceAs (Decidable (_ ∧ _ ∧ _))

end Path

namespace Session

/-- Everything but the rights on the target's directory is there for a rename. -/
structure Movable (session : Session) (disk : Disk) (source target : Bytes)
    (fromPath toPath : Path) : Prop where
  source : session.getPath source .any = .ok fromPath
  target : session.getPath target .any = .ok toPath
  canRename : fromPath.canRename = true
  existing : fromPath.existsOnDisk.run disk = .ok true disk
  free : toPath.existsOnDisk.run disk = .ok false disk

/-- The bit that a move of what is at the source needs on the target. -/
def mayCreate (disk : Disk) (fromPath toPath : Path) : Bool :=
  if Node.isDirectory (disk.files.node fromPath.ppath) then toPath.canCreateDir
  else toPath.canCreateFile

/-- What is left of a rename when all has been checked. -/
def moves (fromPath toPath : Path) : DiskM Unit := do
  require (← Disk.perform (.rename fromPath.ppath toPath.ppath)) .accessDenied

/-- Inside one directory a rename goes on to the file system; elsewhere it needs the right to
create, and is refused in front of the file system without it. -/
structure RenamesInPlace (session : Session) (disk : Disk) (source target : Bytes)
    (fromPath toPath : Path) : Prop where
  inPlace : Path.SameParentDir fromPath toPath →
    (session.rename source target).run disk = (moves fromPath toPath).run disk
  elsewhere : ¬ Path.SameParentDir fromPath toPath → mayCreate disk fromPath toPath = false →
    (session.rename source target).run disk = .error .accessDenied disk

variable {session : Session} {disk : Disk} {source target : Bytes} {fromPath toPath : Path}

theorem run_authoriseMove (hallowed : disk.files.refuses .status fromPath.ppath = false) :
    (authoriseMove fromPath toPath).run disk
      = if mayCreate disk fromPath toPath then .ok () disk else .error .accessDenied disk := by
  have hstatus : (Disk.status fromPath.ppath).run disk
      = .ok (disk.files.node fromPath.ppath) disk :=
    Disk.status_eq_ok.mpr ⟨hallowed, rfl, rfl⟩
  rw [authoriseMove, isSameParentDir_eq_false, if_neg Bool.false_ne_true, run_bind_of_ok hstatus,
    mayCreate]
  cases hdir : Node.isDirectory (disk.files.node fromPath.ppath) with
  | true =>
      cases hbit : toPath.canCreateDir with
      | true => rfl
      | false => rfl
  | false =>
      cases hbit : toPath.canCreateFile with
      | true => rfl
      | false => rfl

/-- Where the source and the target are does not matter. -/
theorem Movable.run_rename (h : Movable session disk source target fromPath toPath) :
    (session.rename source target).run disk
      = if mayCreate disk fromPath toPath then (moves fromPath toPath).run disk
        else .error .accessDenied disk := by
  have hallowed := (Path.existsOnDisk_eq_ok h.existing).2.1
  have hsource : (lift (session.getPath source .any) : DiskM Path).run disk = .ok fromPath disk :=
    lift_eq_ok.mpr ⟨h.source, rfl⟩
  have htarget : (lift (session.getPath target .any) : DiskM Path).run disk = .ok toPath disk :=
    lift_eq_ok.mpr ⟨h.target, rfl⟩
  have hmove := @run_authoriseMove disk fromPath toPath hallowed
  rw [rename, run_bind_of_ok hsource, run_bind_of_ok htarget, h.canRename]
  change (fromPath.existsOnDisk >>= _).run disk = _
  rw [run_bind_of_ok h.existing]
  change (toPath.existsOnDisk >>= _).run disk = _
  rw [run_bind_of_ok h.free]
  change (authoriseMove fromPath toPath >>= fun _ => moves fromPath toPath).run disk = _
  rw [EStateM.run_bind, hmove]
  cases mayCreate disk fromPath toPath with
  | true => rfl
  | false => rfl

/-- A refusal by the file system comes behind the call. -/
theorem run_moves_ne : (moves fromPath toPath).run disk ≠ .error .accessDenied disk := by
  intro h
  have hafter := after_of_error h
  have hperformed : after (moves fromPath toPath) disk
      = after (Disk.perform (.rename fromPath.ppath toPath.ppath)) disk :=
    after_bind_keeps (fun found => keeps_require found _) disk
  rw [hperformed, Disk.after_perform] at hafter
  have hlength := congrArg (fun disk => disk.performed.length) hafter
  simp at hlength

end Session

open Session

/-- **Same parent directory.** `IsSameParentDir` is right about two paths if and only if they are not
in one directory; a rename treats them as it should if and only if they are not in one directory or
the right to create, which it should not need there, is there. -/
theorem isSameParentDir_iff (fromPath toPath : Path) :
    ((fromPath.isSameParentDir toPath = true ↔ Path.SameParentDir fromPath toPath)
        ↔ ¬ Path.SameParentDir fromPath toPath)
      ∧ ∀ (session : Session) (disk : Disk) (source target : Bytes),
        Movable session disk source target fromPath toPath →
          (RenamesInPlace session disk source target fromPath toPath
            ↔ ¬ Path.SameParentDir fromPath toPath ∨ mayCreate disk fromPath toPath = true) := by
  constructor
  · rw [isSameParentDir_eq_false]
    simp
  · intro session disk source target h
    have hrun := h.run_rename
    constructor
    · intro hrule
      by_contra hnot
      rw [not_or, not_not, Bool.not_eq_true] at hnot
      rw [hnot.2, if_neg Bool.false_ne_true] at hrun
      exact run_moves_ne ((hrule.inPlace hnot.1).symm.trans hrun)
    · intro hcase
      refine ⟨fun hsame => ?_, fun _ hmissing => ?_⟩
      · rw [hrun, if_pos (hcase.resolve_left (not_not.mpr hsame))]
      · rw [hrun, hmissing, if_neg Bool.false_ne_true]

/-- Files may be renamed in the root, and nothing may be created there. -/
def renameOnly : Session :=
  { permissions :=
      ⟨[.make (bytes "/") [bytes "srv"] (Path.toPermBits [.canRename, .isRecursive])], by decide,
        by decide⟩ }

def oneFile : Disk :=
  { files :=
      { node := fun path => if path = [bytes "srv", bytes "a"] then some (.file []) else none
        refuses := fun _ _ => false }
    performed := [] }

def renamed (name : String) : Path :=
  .make (bytes "/" ++ bytes name) [bytes "srv", bytes name]
    (Path.toPermBits [.canRename, .isRecursive]) .any

theorem movable_renameOnly :
    Movable renameOnly oneFile (bytes "a") (bytes "b") (renamed "a") (renamed "b") :=
  ⟨by decide, by decide, by decide, rfl, rfl⟩

theorem isSameParentDir_iff_renameOnly :
    RenamesInPlace renameOnly oneFile (bytes "a") (bytes "b") (renamed "a") (renamed "b")
      ↔ ¬ Path.SameParentDir (renamed "a") (renamed "b")
        ∨ mayCreate oneFile (renamed "a") (renamed "b") = true :=
  (isSameParentDir_iff _ _).2 _ _ _ _ movable_renameOnly

/-- `RNFR a`, `RNTO b` in a directory where the client may rename: the answer is that it may not
create files. -/
theorem not_isSameParentDir_root :
    Path.SameParentDir (renamed "a") (renamed "b")
      ∧ (renamed "a").isSameParentDir (renamed "b") = false
      ∧ Movable renameOnly oneFile (bytes "a") (bytes "b") (renamed "a") (renamed "b")
      ∧ ¬ RenamesInPlace renameOnly oneFile (bytes "a") (bytes "b") (renamed "a") (renamed "b") := by
  have hsame : Path.SameParentDir (renamed "a") (renamed "b") := by decide
  refine ⟨hsame, by decide, movable_renameOnly, fun hrule => ?_⟩
  have hrun := movable_renameOnly.run_rename
  rw [show mayCreate oneFile (renamed "a") (renamed "b") = false by decide,
    if_neg Bool.false_ne_true] at hrun
  exact run_moves_ne ((hrule.inPlace hsame).symm.trans hrun)

end Wfde
