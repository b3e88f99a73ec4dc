import Wfde.Proof.MappedFile
import Wfde.Proof.Rename

/-!
# Closing a file again

`Close` assigns `false` to `closed_`, so the destructor closes a file that has been closed already.
By then the path may belong to somebody else, and the file that is there now is cut, or stretched,
to the length that the closed one had.
-/

namespace Wfde

open Effect

/-- What `ReceiveFile` calls on its file. -/
inductive FileCall where
  | write (bytes : Nat)
  | setBytesWritten (bytes : Nat)
  deriving DecidableEq

namespace WfdeFile

def call (file : WfdeFile) : FileCall → DiskM WfdeFile
  | .write bytes => do
      let (_, file) ← file.write bytes
      return file
  | .setBytesWritten bytes => return file.setBytesWritten bytes

/-- A file that is opened, used and closed. -/
def openAndClose (segmentSize : Nat) (path : PPath) (operation : FileOperation)
    (calls : List FileCall) : DiskM WfdeFile := do
  let file ← make segmentSize path operation
  let file ← calls.foldlM call file
  file.close

/-- The object behind a further `Close`. -/
def closeAgain (file : WfdeFile) (disk : Disk) : WfdeFile :=
  match file.close.run disk with
  | .ok file _ => file
  | .error _ _ => file

/-- Further calls of `Close`, each on a disk that others have worked on in between, leave the files
as they are. -/
def Untouched (file : WfdeFile) : List Disk → Prop
  | [] => True
  | disk :: later =>
      (after file.close disk).files = disk.files ∧ Untouched (file.closeAgain disk) later

/-- The object does not want to cut its file, or there is no file at the path that it could change
the length of. -/
def harmless (file : WfdeFile) (disk : Disk) : Bool :=
  !file.cuts || disk.files.refuses .status file.path || disk.files.refuses .write file.path
    || match disk.files.node file.path with
      | some (.file content) => content.length == file.endOfFilePos
      | _ => true

theorem files_set_iff {files : FileSystem} {path : PPath} {content : Bytes} (size : Nat)
    (hnode : files.node path = some (.file content)) :
    files.set path (some (.file (resized content size))) = files ↔ content.length = size := by
  constructor
  · intro hsame
    have hcontent := congrArg (fun files => files.node path) hsame
    simp only [FileSystem.set_node_self, hnode, Option.some.injEq, Node.file.injEq] at hcontent
    rw [← length_resized content size, hcontent]
  · intro hlength
    have hcontent : resized content size = content := by
      rw [resized, List.take_of_length_le hlength.le, ← hlength]
      simp
    rw [hcontent, ← hnode]
    unfold FileSystem.set
    rw [Function.update_eq_self]

section Closed

variable {file : WfdeFile} {disk : Disk}

theorem closed_mapFile (hclosed : file.closed = false) :
    Yields (fun file => file.closed = false) file.mapFile := by
  refine yields_bind (yields_any _) fun _ _ => yields_bind (yields_any _) fun _ _ => ?_
  apply yields_pure
  change file.umapRegion.closed = false
  unfold umapRegion
  split
  · exact hclosed
  · exact hclosed

theorem closed_getBufferValues (hclosed : file.closed = false) (bytes : Nat) :
    Yields (fun result => result.2.closed = false) (file.getBufferValues bytes) := by
  have hregion : Yields (fun file => file.closed = false) (file.mapRegion bytes) :=
    yields_ite (yields_bind (yields_pure hclosed) fun file hfile => yields_pure hfile)
      (yields_bind (closed_mapFile hclosed) fun file hfile => yields_pure hfile)
  exact yields_bind hregion fun file hfile => yields_pure hfile

theorem closed_write (hclosed : file.closed = false) (bytes : Nat) :
    Yields (fun result => result.2.closed = false) (file.write bytes) := by
  have hgrown (size : Nat) : ({ file with fileSize := size } : WfdeFile).closed = false := hclosed
  refine yields_ite (yields_bind (yields_any _) fun _ _ => ?_) (closed_getBufferValues hclosed _)
  exact closed_getBufferValues (hgrown _) _

theorem closed_call (file : WfdeFile) (call : FileCall) (hclosed : file.closed = false) :
    Yields (fun file => file.closed = false) (file.call call) := by
  cases call with
  | write bytes => exact yields_bind (closed_write hclosed bytes) fun _ h => yields_pure h
  | setBytesWritten bytes =>
      apply yields_pure
      unfold setBytesWritten
      dsimp only
      split
      · exact hclosed
      · exact hclosed

theorem closed_make (segmentSize : Nat) (path : PPath) (operation : FileOperation) :
    Yields (fun file => file.closed = false) (make segmentSize path operation) := by
  refine yields_bind (yields_any _) fun _ _ => yields_bind (yields_any _) fun size _ => ?_
  refine yields_bind (closed_mapFile rfl) fun file hclosed => ?_
  exact yields_ite (yields_bind (yields_any _) fun _ _ => yields_pure hclosed) (yields_pure hclosed)

theorem closed_close (hclosed : file.closed = false) :
    Yields (fun file => file.closed = false) file.close := by
  have hunmapped : ({ file with closed := false } : WfdeFile).unmapFile.closed = false :=
    (unmapFile_eq _).2.2.2.2
  refine yields_ite (yields_pure hclosed) (yields_ite ?_ (yields_pure hunmapped))
  refine yields_bind (yields_any _) fun _ _ => yields_ite ?_ (yields_pure hunmapped)
  exact yields_bind (yields_any _) fun _ _ => yields_pure hunmapped

/-- **`Close` never marks an object as closed.** -/
theorem closed_openAndClose (segmentSize : Nat) (path : PPath) (operation : FileOperation)
    (calls : List FileCall) :
    Yields (fun file => file.closed = false) (openAndClose segmentSize path operation calls) := by
  refine yields_bind (closed_make segmentSize path operation) fun file hmade => ?_
  refine yields_bind (yields_foldlM (fun file call => closed_call file call) hmade calls) ?_
  exact fun file hcalled => closed_close hcalled

theorem cuts_unmapFile (file : WfdeFile) : file.unmapFile.cuts = file.cuts := by
  obtain ⟨htruncate, hsize, heof, -⟩ := file.unmapFile_eq
  rw [cuts, cuts, htruncate, hsize, heof]

theorem close_of_refused (hclosed : file.closed = false)
    (hrefused : disk.files.refuses .status file.path = true) :
    file.close.run disk
      = if file.cuts then .error .filesystemError disk else .ok file.unmapFile disk := by
  rw [close_eq hclosed]
  by_cases hcuts : file.cuts = true
  · rw [if_pos hcuts, if_pos hcuts]
    have hstatus : (Disk.status file.path).run disk = .error .filesystemError disk := by
      change Disk.status file.path disk = _
      unfold Disk.status
      rw [if_pos hrefused]
    rw [EStateM.run_bind, hstatus]
  · rw [if_neg hcuts, if_neg hcuts]
    rfl

theorem files_close_iff (hclosed : file.closed = false) :
    (after file.close disk).files = disk.files ↔ file.harmless disk = true := by
  unfold harmless
  cases hrefused : disk.files.refuses .status file.path with
  | true =>
      have hrun := close_of_refused hclosed hrefused
      cases hcuts : file.cuts with
      | true =>
          rw [hcuts, if_pos rfl] at hrun
          simp [after_of_error hrun]
      | false =>
          rw [hcuts, if_neg (by simp)] at hrun
          simp [after_of_ok hrun]
  | false =>
      rw [after_of_ok (close_run hclosed hrefused)]
      cases hcuts : file.cuts with
      | false => simp
      | true =>
          cases hnode : disk.files.node file.path with
          | none => simp [Node.isRegularFile]
          | some node =>
              cases node with
              | directory => simp [Node.isRegularFile]
              | file content =>
                  rw [if_pos ⟨rfl, rfl⟩, Disk.after_perform]
                  cases hwrite : disk.files.refuses .write file.path with
                  | true => simp [FileSystem.perform, hnode, hwrite]
                  | false =>
                      have hfiles := files_set_iff file.endOfFilePos hnode
                      simpa [FileSystem.perform, hnode, hwrite] using hfiles

theorem closeAgain_eq (hclosed : file.closed = false) (disk : Disk) :
    file.closeAgain disk = file ∨ file.closeAgain disk = file.unmapFile := by
  unfold closeAgain
  cases hrefused : disk.files.refuses .status file.path with
  | false =>
      rw [close_run hclosed hrefused]
      exact .inr rfl
  | true =>
      rw [close_of_refused hclosed hrefused]
      cases file.cuts with
      | true => exact .inl rfl
      | false => exact .inr rfl

theorem harmless_unmapFile (file : WfdeFile) (disk : Disk) :
    file.unmapFile.harmless disk = file.harmless disk := by
  obtain ⟨-, -, heof, hpath, -⟩ := file.unmapFile_eq
  unfold harmless
  rw [cuts_unmapFile, heof, hpath]

theorem untouched_iff (hclosed : file.closed = false) (disks : List Disk) :
    Untouched file disks ↔ ∀ disk ∈ disks, file.harmless disk = true := by
  induction disks generalizing file with
  | nil => simp [Untouched]
  | cons disk disks ih =>
      rw [Untouched, files_close_iff hclosed, List.forall_mem_cons]
      refine and_congr_right fun _ => ?_
      rcases closeAgain_eq hclosed disk with hsame | hunmapped
      · rw [hsame, ih hclosed]
      · have hunmappedClosed : file.unmapFile.closed = false :=
          file.unmapFile_eq.2.2.2.2.trans hclosed
        rw [hunmapped, ih hunmappedClosed]
        simp only [harmless_unmapFile]

end Closed

/-- **Closing again.** Whatever has been written through a file that was opened and closed, and
whatever others have done to its path since, further calls of `Close` leave the files as they are if
and only if each of them is harmless. -/
theorem close_untouched_iff {segmentSize : Nat} {path : PPath} {operation : FileOperation}
    {calls : List FileCall} {disk disk' : Disk} {file : WfdeFile}
    (h : (openAndClose segmentSize path operation calls).run disk = .ok file disk')
    (disks : List Disk) : Untouched file disks ↔ ∀ disk ∈ disks, file.harmless disk = true :=
  untouched_iff (closed_openAndClose segmentSize path operation calls disk file disk' h) disks

/-- An upload of three bytes. -/
def threeBytes : DiskM WfdeFile :=
  openAndClose 4096 [bytes "srv", bytes "a"] .write [.write 0, .setBytesWritten 3]

/-- Three other bytes are there when the object is destroyed. -/
theorem close_untouched_iff_same_length :
    ∃ file disk', threeBytes.run (oneFileDisk []) = .ok file disk'
      ∧ (Untouched file [oneFileDisk [7, 8, 9]]
        ↔ ∀ disk ∈ [oneFileDisk [7, 8, 9]], file.harmless disk = true)
      ∧ file.harmless (oneFileDisk [7, 8, 9]) = true := by
  refine ⟨_, _, rfl, ?_, rfl⟩
  exact close_untouched_iff (show threeBytes.run (oneFileDisk []) = _ from rfl) _

/-- Another session makes five bytes of the three, and the destructor cuts these back to three. -/
theorem not_untouched_lengthened :
    ∃ file disk', threeBytes.run (oneFileDisk []) = .ok file disk'
      ∧ (after file.close (oneFileDisk [1, 2, 3, 4, 5])).files.node [bytes "srv", bytes "a"]
        = some (.file [1, 2, 3])
      ∧ ¬ Untouched file [oneFileDisk [1, 2, 3, 4, 5]] := by
  refine ⟨_, _, rfl, rfl, fun huntouched => ?_⟩
  have hnode := congrArg (fun files => files.node [bytes "srv", bytes "a"]) huntouched.1
  exact absurd (Option.some.inj hnode) (by decide)

end WfdeFile

end Wfde
