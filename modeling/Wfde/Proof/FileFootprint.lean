import Wfde.AsciiFile
import Wfde.Proof.Footprint

/-!
# Files and operations on two disks

The files that a transfer works on and the operations of a session, each run on two disks that agree
where the session sees them.
-/

namespace Wfde

open Effect

/-- The file is seen, and is not cut when it is closed unless it may be changed. -/
def WfdeFile.Within (reach : Reach) (file : WfdeFile) : Prop :=
  file.path ∈ reach.reads ∧ (file.doTruncate = true → file.path ∈ reach.writes)

/-- The file is still the one at the path, and is closed as before. -/
def WfdeFile.SameTarget (file file' : WfdeFile) : Prop :=
  file'.path = file.path ∧ file'.doTruncate = file.doTruncate

namespace RawFile

def Within (reach : Reach) : RawFile → Prop
  | mapped file => file.Within reach
  | listing _ _ => True

def Writable (reach : Reach) : RawFile → Prop
  | mapped file => file.path ∈ reach.writes
  | listing _ _ => True

def SameTarget : RawFile → RawFile → Prop
  | mapped file, mapped file' => file.SameTarget file'
  | listing _ _, listing _ _ => True
  | _, _ => False

variable {reach : Reach} {file file' : RawFile}

theorem Writable.within (h : file.Writable reach) : file.Within reach := by
  cases file with
  | mapped file => exact ⟨reach.writes_subset h, fun _ => h⟩
  | listing buffers eof => trivial

theorem SameTarget.within (h : SameTarget file file') (hfile : file.Within reach) :
    file'.Within reach := by
  cases file with
  | mapped file =>
      cases file' with
      | mapped file' => simpa only [Within, WfdeFile.Within, h.1, h.2] using hfile
      | listing buffers eof => exact h.elim
  | listing buffers eof =>
      cases file' with
      | mapped file' => exact h.elim
      | listing buffers eof => trivial

theorem SameTarget.writable (h : SameTarget file file') (hfile : file.Writable reach) :
    file'.Writable reach := by
  cases file with
  | mapped file =>
      cases file' with
      | mapped file' => simpa only [Writable, h.1] using hfile
      | listing buffers eof => exact h.elim
  | listing buffers eof =>
      cases file' with
      | mapped file' => exact h.elim
      | listing buffers eof => trivial

end RawFile

section Mapped

open WfdeFile

variable {reach : Reach} {outer : FileSystem} {file : WfdeFile}

theorem sameTarget_umapRegion (file : WfdeFile) : file.SameTarget file.umapRegion := by
  unfold umapRegion
  split <;> exact ⟨rfl, rfl⟩

theorem parallel_mapFile (hpath : file.path ∈ reach.reads) :
    Parallel (Twins reach outer) file.SameTarget file.mapFile := by
  refine parallel_get (fun disk disk' h => ?_) fun disk _ _ => ?_
  · have hmappable : file.mappable disk'.files = file.mappable disk.files := by
      unfold mappable
      rw [h.inside _ hpath, h.refuses .read _ hpath, h.refuses .write _ hpath]
    rw [hmappable]
  · refine parallel_bind (parallel_require _ _) fun _ _ => parallel_pure ?_
    exact sameTarget_umapRegion file

theorem parallel_getBufferValues (hpath : file.path ∈ reach.reads) (bytes : Nat) :
    Parallel (Twins reach outer) (fun result => file.SameTarget result.2)
      (file.getBufferValues bytes) := by
  have hregion : Parallel (Twins reach outer) file.SameTarget (file.mapRegion bytes) := by
    refine parallel_ite (fun _ => parallel_pure ⟨rfl, rfl⟩) fun _ => ?_
    refine parallel_bind (parallel_mapFile hpath) fun file' hfile' => ?_
    exact parallel_pure hfile'
  refine parallel_bind hregion fun file' hfile' => ?_
  exact parallel_pure hfile'

theorem parallel_read (hpath : file.path ∈ reach.reads) (bytes : Nat) :
    Parallel (Twins reach outer) (fun result => file.SameTarget result.2) (file.read bytes) := by
  refine parallel_bind (parallel_getBufferValues hpath bytes) fun (buffer, file') hfile' => ?_
  refine parallel_get (fun disk disk' h => ?_) fun _ _ _ => parallel_pure hfile'
  have hsame : bufferBytes disk'.files file'.path buffer = bufferBytes disk.files file'.path buffer := by
    unfold bufferBytes
    rw [hfile'.1, h.inside _ hpath]
  rw [hsame]

theorem parallel_write (hpath : file.path ∈ reach.writes) (bytes : Nat) :
    Parallel (Twins reach outer) (fun result => file.SameTarget result.2) (file.write bytes) := by
  have hread : file.path ∈ reach.reads := reach.writes_subset hpath
  refine parallel_ite (fun _ => ?_) fun _ => parallel_getBufferValues hread _
  refine parallel_bind (parallel_performOrThrow hpath) fun _ _ => ?_
  have hgrown (size : Nat) : ({ file with fileSize := size } : WfdeFile).path ∈ reach.reads := hread
  exact parallel_getBufferValues (hgrown _) _

theorem parallel_store (hpath : file.path ∈ reach.writes) (buffer : MutableBuffer) (bytes : Bytes) :
    Parallel (Twins reach outer) (fun _ => True) (file.store buffer bytes) := by
  refine parallel_modify fun disk disk' h => ?_
  rw [← h.inside _ (reach.writes_subset hpath)]
  split
  · exact h.set hpath _ _ _
  · exact h

theorem parallel_close (hfile : file.Within reach) :
    Parallel (Twins reach outer) file.SameTarget file.close := by
  have hunmapped : file.SameTarget file.unmapFile :=
    ⟨file.unmapFile_eq.2.2.2.1, file.unmapFile_eq.1⟩
  cases hclosed : file.closed with
  | true =>
      rw [close, hclosed, if_pos rfl]
      exact parallel_pure ⟨rfl, rfl⟩
  | false =>
      rw [close_eq hclosed]
      refine parallel_ite (fun hcuts => ?_) fun _ => parallel_pure hunmapped
      have hpath : file.path ∈ reach.writes := by
        have hboth : file.doTruncate = true ∧ _ := Bool.and_eq_true_iff.mp hcuts
        exact hfile.2 hboth.1
      refine parallel_bind (parallel_status hfile.1) fun node _ => ?_
      refine parallel_ite (fun _ => ?_) fun _ => parallel_pure hunmapped
      exact parallel_bind (parallel_perform hpath) fun _ _ => parallel_pure hunmapped

theorem parallel_prepare {path : PPath} {operation : FileOperation} (hread : path ∈ reach.reads)
    (hwrite : operation ≠ .read → path ∈ reach.writes) :
    Parallel (Twins reach outer) (fun _ => True) (prepare path operation) := by
  have htouch (hop : operation ≠ .read) : Parallel (Twins reach outer) (fun _ => True)
      (do let _ ← Disk.perform (.touch path); pure () : DiskM Unit) :=
    parallel_bind (parallel_perform (hwrite hop)) fun _ _ => parallel_pure trivial
  refine parallel_bind (parallel_status hread) fun node _ => ?_
  cases operation with
  | read => exact (parallel_require _ _).imp fun _ _ => trivial
  | write =>
      refine parallel_ite (fun _ => parallel_performOrThrow (hwrite (by simp))) fun _ => ?_
      exact htouch (by simp)
  | writeNew => exact parallel_bind (parallel_require _ _) fun _ _ => htouch (by simp)
  | append => exact parallel_ite (fun _ => parallel_pure trivial) fun _ => htouch (by simp)

/-- The constructor makes a file at the path that is not cut yet. -/
theorem parallel_make {segmentSize : Nat} {path : PPath} {operation : FileOperation}
    (hread : path ∈ reach.reads) (hwrite : operation ≠ .read → path ∈ reach.writes) :
    Parallel (Twins reach outer)
      (fun file => file.path = path ∧ file.operation = operation ∧ file.doTruncate = false)
      (make segmentSize path operation) := by
  refine parallel_bind (parallel_prepare hread hwrite) fun _ _ => ?_
  refine parallel_bind (parallel_fileSize hread) fun size _ => ?_
  let opened : WfdeFile :=
    { path, operation, segmentSize
      mode := if operation = .read then .readOnly else .readWrite
      fileSize := size, endOfFilePos := size }
  have hmapped : Parallel (Twins reach outer)
      (fun file => file.path = path ∧ file.operation = operation ∧ file.doTruncate = false)
      opened.mapFile := by
    refine parallel_get (fun disk disk' h => ?_) fun disk _ _ => ?_
    · have hmappable : opened.mappable disk'.files = opened.mappable disk.files := by
        unfold mappable
        rw [h.inside _ hread, h.refuses .read _ hread, h.refuses .write _ hread]
      rw [hmappable]
    · exact parallel_bind (parallel_require _ _) fun _ _ => parallel_pure ⟨rfl, rfl, rfl⟩
  refine parallel_bind hmapped fun file hfile => parallel_ite (fun _ => ?_) fun _ => parallel_pure hfile
  exact parallel_bind (parallel_require _ _) fun _ _ => parallel_pure hfile

end Mapped

section Files

variable {reach : Reach} {outer : FileSystem}

theorem RawFile.parallel_read {file : RawFile} (hfile : file.Within reach) (bytes : Nat) :
    Parallel (Twins reach outer) (fun result => file.SameTarget result.2) (file.read bytes) := by
  cases file with
  | mapped file =>
      refine parallel_bind (Wfde.parallel_read hfile.1 bytes) fun result hresult => ?_
      exact parallel_pure hresult
  | listing buffers eof => exact parallel_pure trivial

theorem RawFile.parallel_write {file : RawFile} (hfile : file.Writable reach) (bytes : Nat) :
    Parallel (Twins reach outer) (fun result => result.2.Writable reach) (file.write bytes) := by
  cases file with
  | mapped file =>
      refine parallel_bind (Wfde.parallel_write hfile bytes) fun result hresult => ?_
      have hsame : (RawFile.mapped file).SameTarget (.mapped result.2) := hresult
      exact parallel_pure (hsame.writable hfile)
  | listing buffers eof => exact parallel_pure trivial

theorem RawFile.parallel_store {file : RawFile} (hfile : file.Writable reach) (bytes : Bytes)
    (buffer : WriteBuffer) :
    Parallel (Twins reach outer) (fun _ => True) (file.store bytes buffer) := by
  cases buffer with
  | memory size => exact parallel_pure trivial
  | region buffer =>
      cases file with
      | mapped file => exact Wfde.parallel_store hfile buffer bytes
      | listing buffers eof => exact parallel_pure trivial

theorem RawFile.writable_setBytesWritten {file : RawFile} (hfile : file.Writable reach)
    (bytes : Nat) : (file.setBytesWritten bytes).Writable reach := by
  cases file with
  | mapped file =>
      have hpath : (file.setBytesWritten bytes).path = file.path := by
        unfold WfdeFile.setBytesWritten
        split <;> rfl
      change (file.setBytesWritten bytes).path ∈ reach.writes
      rw [hpath]
      exact hfile
  | listing buffers eof => trivial

theorem RawFile.parallel_close {file : RawFile} (hfile : file.Within reach) :
    Parallel (Twins reach outer) file.SameTarget file.close := by
  cases file with
  | mapped file =>
      refine parallel_bind (Wfde.parallel_close hfile) fun file' hfile' => ?_
      exact parallel_pure hfile'
  | listing buffers eof => exact parallel_pure trivial

theorem File.parallel_read {file : File} (hfile : file.inner.Within reach) (bytes : Nat) :
    Parallel (Twins reach outer) (fun result => file.inner.SameTarget result.2.inner)
      (file.read bytes) := by
  cases file with
  | raw file =>
      refine parallel_bind (RawFile.parallel_read hfile bytes) fun result hresult => ?_
      exact parallel_pure hresult
  | ascii file text =>
      refine parallel_bind (RawFile.parallel_read hfile bytes) fun result hresult => ?_
      exact parallel_pure hresult

theorem File.parallel_write {file : File} (hfile : file.inner.Writable reach) (bytes : Nat) :
    Parallel (Twins reach outer) (fun result => result.2.inner.Writable reach)
      (file.write bytes) := by
  cases file with
  | raw file =>
      refine parallel_bind (RawFile.parallel_write hfile bytes) fun result hresult => ?_
      exact parallel_pure hresult
  | ascii file text => exact parallel_pure hfile

theorem File.parallel_store {file : File} (hfile : file.inner.Writable reach) (bytes : Bytes)
    (buffer : WriteBuffer) :
    Parallel (Twins reach outer) (fun file' => file'.inner.Writable reach)
      (file.store bytes buffer) := by
  cases file with
  | raw file =>
      refine parallel_bind (RawFile.parallel_store hfile bytes buffer) fun _ _ => ?_
      exact parallel_pure hfile
  | ascii file text => exact parallel_pure hfile

theorem File.parallel_setBytesWritten {file : File} (hfile : file.inner.Writable reach)
    (bytes : Nat) :
    Parallel (Twins reach outer) (fun file' => file'.inner.Writable reach)
      (file.setBytesWritten bytes) := by
  cases file with
  | raw file => exact parallel_pure (RawFile.writable_setBytesWritten hfile bytes)
  | ascii file text =>
      refine parallel_bind (RawFile.parallel_write hfile _) fun (buffer, file') hfile' => ?_
      refine parallel_bind (RawFile.parallel_store hfile' _ buffer) fun _ _ => ?_
      exact parallel_pure (RawFile.writable_setBytesWritten hfile' _)

theorem File.parallel_close {file : File} (hfile : file.inner.Within reach) :
    Parallel (Twins reach outer) (fun file' => file.inner.SameTarget file'.inner) file.close := by
  cases file with
  | raw file =>
      refine parallel_bind (RawFile.parallel_close hfile) fun file' hfile' => ?_
      exact parallel_pure hfile'
  | ascii file text =>
      refine parallel_bind (RawFile.parallel_close hfile) fun file' hfile' => ?_
      exact parallel_pure hfile'

end Files

namespace Session

variable {reach : Reach} {outer : FileSystem} {self : Session} (h : reach.Covers self.permissions)
include h

theorem parallel_getPathForListing (vpath : Bytes) :
    Parallel (Twins reach outer) (fun _ => True) (self.getPathForListing vpath) := by
  refine parallel_bind (parallel_lift _) fun path hpath => ?_
  refine parallel_bind (parallel_existsOnDisk (h.reads hpath)) fun found _ => ?_
  refine parallel_bind (parallel_require _ _) fun _ _ => ?_
  exact parallel_bind (parallel_require _ _) fun _ _ => parallel_pure trivial

/-- The operations that ask for a bit and then make one call. -/
theorem parallel_guarded (vpath : Bytes) (type : PathType) (bit : Path → Bool)
    (wanted : Bool → Bool) (primitive : Path → Primitive) (e e' e'' : Exception)
    (hbit : ∀ path, bit path = true → path.changes = true)
    (hprimitive : ∀ path : Path, path.ppath ∈ reach.writes → (primitive path).Within reach) :
    Parallel (Twins reach outer) (fun _ => True) (do
      let path ← lift (self.getPath vpath type)
      require (bit path) e
      require (wanted (← path.existsOnDisk)) e'
      require (← Disk.perform (primitive path)) e'' : DiskM Unit) := by
  refine parallel_bind (parallel_lift _) fun path hpath => ?_
  refine parallel_bind (parallel_require _ _) fun _ hallowed => ?_
  refine parallel_bind (parallel_existsOnDisk (h.reads hpath)) fun found _ => ?_
  refine parallel_bind (parallel_require _ _) fun _ _ => ?_
  have hwithin := hprimitive path (h.writes hpath (hbit path hallowed))
  exact parallel_bind (parallel_perform hwithin) fun _ _ =>
    (parallel_require _ _).imp fun _ _ => trivial

theorem parallel_deleteFile (vpath : Bytes) :
    Parallel (Twins reach outer) (fun _ => True) (self.deleteFile vpath) :=
  parallel_guarded h vpath _ (·.canDeleteFile) id (.remove ·.ppath) _ _ _
    (fun path hbit => by simp [Path.changes, hbit]) fun _ hpath => hpath

theorem parallel_createDirectory (vpath : Bytes) :
    Parallel (Twins reach outer) (fun _ => True) (self.createDirectory vpath) :=
  parallel_guarded h vpath _ (·.canCreateDir) (!·) (.createDirectory ·.ppath) _ _ _
    (fun path hbit => by simp [Path.changes, hbit]) fun _ hpath => hpath

theorem parallel_deleteDirectory (vpath : Bytes) :
    Parallel (Twins reach outer) (fun _ => True) (self.deleteDirectory vpath) :=
  parallel_guarded h vpath _ (·.canDeleteDir) id (.remove ·.ppath) _ _ _
    (fun path hbit => by simp [Path.changes, hbit]) fun _ hpath => hpath

omit h in
/-- A target is approved with a bit that allows a change. -/
theorem parallel_authoriseMove {fromPath toPath : Path} (hread : fromPath.ppath ∈ reach.reads) :
    Parallel (Twins reach outer) (fun _ => toPath.changes = true)
      (authoriseMove fromPath toPath) := by
  unfold authoriseMove
  rw [isSameParentDir_eq_false, if_neg (by simp)]
  refine parallel_bind (parallel_status hread) fun node _ => ?_
  refine parallel_bind (parallel_require _ _) fun _ hdir => ?_
  refine (parallel_require _ _).imp fun _ hfile => ?_
  cases hnode : Node.isDirectory node with
  | true =>
      rw [hnode] at hdir
      have hbit : toPath.canCreateDir = true := by simpa using hdir
      simp [Path.changes, hbit]
  | false =>
      rw [hnode] at hfile
      have hbit : toPath.canCreateFile = true := by simpa using hfile
      simp [Path.changes, hbit]

theorem parallel_rename (source target : Bytes) :
    Parallel (Twins reach outer) (fun _ => True) (self.rename source target) := by
  refine parallel_bind (parallel_lift _) fun fromPath hfrom => ?_
  refine parallel_bind (parallel_lift _) fun toPath hto => ?_
  refine parallel_bind (parallel_require _ _) fun _ hrename => ?_
  refine parallel_bind (parallel_existsOnDisk (h.reads hfrom)) fun _ _ => ?_
  refine parallel_bind (parallel_require _ _) fun _ _ => ?_
  refine parallel_bind (parallel_existsOnDisk (h.reads hto)) fun _ _ => ?_
  refine parallel_bind (parallel_require _ _) fun _ _ => ?_
  refine parallel_bind (parallel_authoriseMove (h.reads hfrom)) fun _ hmove => ?_
  have hsource : fromPath.changes = true := by simp [Path.changes, hrename]
  have hwithin : (Primitive.rename fromPath.ppath toPath.ppath).Within reach :=
    ⟨h.writes hfrom hsource, h.writes hto hmove⟩
  exact parallel_bind (parallel_perform hwithin) fun _ _ =>
    (parallel_require _ _).imp fun _ _ => trivial

theorem parallel_getFileLen (vpath : Bytes) :
    Parallel (Twins reach outer) (fun _ => True) (self.getFileLen vpath) := by
  refine parallel_bind (parallel_lift _) fun path hpath => ?_
  refine parallel_bind (parallel_require _ _) fun _ _ => ?_
  exact parallel_tryCatch (parallel_fileSize (h.reads hpath)) fun _ => parallel_throw _

theorem parallel_setCwd (vpath : Bytes) :
    Parallel (Twins reach outer) (fun changed => changed.permissions = self.permissions)
      (self.setCwd vpath) := by
  refine parallel_bind (parallel_lift _) fun dir hdir => ?_
  refine parallel_bind (parallel_require _ _) fun _ _ => ?_
  refine parallel_bind (parallel_existsOnDisk (h.reads hdir)) fun _ _ => ?_
  exact parallel_bind (parallel_require _ _) fun _ _ => parallel_pure rfl

/-- A file is opened where it may be seen, and to be written where it may be changed. -/
theorem parallel_openFile (segmentSize : Nat) (vpath : Bytes) (operation : FileOperation) :
    Parallel (Twins reach outer)
      (fun file => file.Within reach ∧ (file.operation ≠ .read → file.path ∈ reach.writes))
      (self.openFile segmentSize vpath operation) := by
  refine parallel_bind (parallel_lift _) fun path hpath => ?_
  refine parallel_bind (parallel_lift _) fun _ hallowed => ?_
  have hwrite (hop : operation ≠ .read) : path.ppath ∈ reach.writes := by
    have hbit := canWrite_of_authorise hop hallowed
    exact h.writes hpath (by simp [Path.changes, hbit])
  refine (parallel_make (h.reads hpath) hwrite).imp fun file hfile => ?_
  obtain ⟨hsame, rfl, hwhole⟩ := hfile
  rw [WfdeFile.Within, hsame, hwhole]
  exact ⟨⟨h.reads hpath, fun hopened => absurd hopened Bool.false_ne_true⟩, hwrite⟩

end Session

end Wfde
