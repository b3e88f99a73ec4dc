import Wfde.Lib.Run
import Wfde.Proof.MappedFile

/-!
# The buffers of a file that is written

A run of `Write` and `SetBytesWritten` on one file, over whatever the file system has become by each
call. Growth, the start of the mapped region and its limit are three different roundings; a buffer
fits because a whole segment is kept free behind what is asked for.
-/

namespace Wfde

open Effect Machine

/-- A file that is written, and whether the last call on it was a `Write` that returned. -/
structure Writer where
  file : WfdeFile
  offered : Bool := false
  deriving DecidableEq

inductive WriteCall where
  /-- The file system is as the call finds it. -/
  | write (bytes : Nat) (disk : Disk)
  | setBytesWritten (bytes : Nat)

namespace WfdeFile

/-- What `Write` makes of the number of bytes it is asked for. -/
def asked (file : WfdeFile) (bytes : Nat) : Nat := if bytes = 0 then file.segmentSize else bytes

/-- The buffer is of the size that was asked for, and it lies in the mapped region, which lies in the
file. `regionStart_le_pos`, `regionStart_le_fileSize` and `offset_le_regionSize` are for the
subtractions of `GetBufferValues` and `MapRegion`. -/
structure Fits (before : WfdeFile) (bytes : Nat) (buffer : MutableBuffer) (after : WfdeFile) :
    Prop where
  size : bytes ≤ before.regionLimit - before.segmentSize → buffer.size = before.asked bytes
  start : buffer.start = before.pos
  regionStart_le_start : after.regionStart ≤ buffer.start
  buffer_le_region : buffer.start + buffer.size ≤ after.regionStart + after.regionSize
  region_le_file : after.regionStart + after.regionSize ≤ after.fileSize
  regionStart_le_pos : after.regionStart ≤ before.pos
  regionStart_le_fileSize : after.regionStart ≤ after.fileSize
  offset_le_regionSize : before.pos - after.regionStart ≤ after.regionSize
  endOfFilePos_le : after.endOfFilePos ≤ after.fileSize
  pos_le : after.pos ≤ after.fileSize

section Window

variable {file : WfdeFile} {bytes : Nat}

theorem asked_pos (hsegment : 0 < file.segmentSize) (bytes : Nat) : 0 < file.asked bytes := by
  unfold asked
  split <;> omega

theorem windowSize_le (hroom : file.pos ≤ file.fileSize) (bytes : Nat) :
    file.windowStart + file.windowSize bytes ≤ file.fileSize := by
  have hstart := file.windowStart_le
  unfold windowSize
  omega

theorem offset_le_windowSize (hsegment : 0 < file.segmentSize) (hroom : file.pos ≤ file.fileSize)
    (bytes : Nat) : file.pos - file.windowStart ≤ file.windowSize bytes := by
  have hstart := file.windowStart_le
  have hlt := file.pos_lt_windowStart hsegment
  unfold windowSize regionLimit
  split <;> omega

theorem offset_add_useLen_le (hsegment : 0 < file.segmentSize) (hroom : file.pos ≤ file.fileSize)
    (bytes : Nat) : file.pos - file.windowStart + file.useLen bytes ≤ file.windowSize bytes := by
  have hoffset := offset_le_windowSize hsegment hroom bytes
  unfold useLen
  dsimp only
  split <;> omega

end Window

def grown (file : WfdeFile) (fileSize : Nat) : WfdeFile := { file with fileSize }

theorem write_eq (file : WfdeFile) (bytes : Nat) :
    file.write bytes =
      if file.pos + file.asked bytes + file.segmentSize > file.fileSize then do
        let size := file.enlargedSize (file.pos + file.asked bytes + file.segmentSize)
        Disk.performOrThrow (.resizeFile file.path size)
        (file.grown size).getBufferValues (file.asked bytes)
      else file.getBufferValues (file.asked bytes) := rfl

/-- A `Write` that returns has enlarged the file, if need be, and offers the front of what is behind
the position. -/
theorem write_eq_ok {file after : WfdeFile} {bytes : Nat} {buffer : MutableBuffer}
    {disk disk' : Disk} (hmapped : file.haveMappedFile = true) (hsegment : 0 < file.segmentSize)
    (h : (file.write bytes).run disk = .ok (buffer, after) disk') :
    ∃ size, file.pos + file.asked bytes + file.segmentSize ≤ size ∧ file.fileSize ≤ size
      ∧ buffer = ⟨file.pos, (file.grown size).useLen (file.asked bytes)⟩
      ∧ after = (file.grown size).moved (file.asked bytes) := by
  rw [write_eq] at h
  split at h
  · obtain ⟨hmin, hgrows⟩ :=
      le_enlargedSize hsegment (file.pos + file.asked bytes + file.segmentSize)
    obtain ⟨_, resized, -, h⟩ := bind_eq_ok.mp h
    rw [getBufferValues_run (file.asked bytes) (by exact hmapped)] at h
    cases h
    exact ⟨_, hmin, hgrows, rfl, rfl⟩
  · rename_i hroom
    rw [getBufferValues_run _ hmapped] at h
    cases h
    exact ⟨file.fileSize, Nat.le_of_not_lt hroom, le_rfl, rfl, rfl⟩

theorem write_returns {file : WfdeFile} {disk : Disk} {content : Bytes}
    (hmapped : file.haveMappedFile = true)
    (hnode : disk.files.node file.path = some (.file content))
    (hwrite : disk.files.refuses .write file.path = false) (bytes : Nat) :
    ∃ buffer after disk', (file.write bytes).run disk = .ok (buffer, after) disk' := by
  rw [write_eq]
  split
  · have hrun := Disk.performOrThrow_resizeFile hnode hwrite
      (file.enlargedSize (file.pos + file.asked bytes + file.segmentSize))
    exact ⟨_, _, _, bind_eq_ok.mpr ⟨_, _, hrun, getBufferValues_run _ (by exact hmapped) _⟩⟩
  · exact ⟨_, _, _, getBufferValues_run _ hmapped _⟩

end WfdeFile

namespace Writer

open WfdeFile

def step (writer : Writer) : WriteCall → Writer
  | .write bytes disk =>
      match (writer.file.write bytes).run disk with
      | .ok (_, file) _ => { file, offered := true }
      | .error _ _ => { writer with offered := false }
  | .setBytesWritten bytes => { file := writer.file.setBytesWritten bytes }

/-- A commit follows a `Write` and takes at most its buffer. -/
def Admits (writer : Writer) : WriteCall → Prop
  | .write _ _ => True
  | .setBytesWritten bytes => writer.offered = true ∧ bytes ≤ writer.file.lastBufferLen

structure Sound (writer : Writer) : Prop where
  mapped : writer.file.haveMappedFile = true
  segment : 0 < writer.file.segmentSize
  eof : writer.file.endOfFilePos ≤ writer.file.fileSize
  pos : writer.file.pos ≤ writer.file.fileSize
  last : writer.offered = true → writer.file.lastBufferLen ≤ writer.file.pos

variable {writer : Writer}

/-- **A `Write` that returns** offers a buffer that fits, and leaves the file sound. -/
theorem Sound.write (h : writer.Sound) {bytes : Nat} {buffer : MutableBuffer} {after : WfdeFile}
    {disk disk' : Disk} (hrun : (writer.file.write bytes).run disk = .ok (buffer, after) disk') :
    writer.file.Fits bytes buffer after ∧ Sound { file := after, offered := true } := by
  obtain ⟨size, hroom, hgrows, rfl, rfl⟩ := write_eq_ok h.mapped h.segment hrun
  set asked := writer.file.asked bytes with hasked
  set grown := writer.file.grown size with hgrown
  have hsegment : 0 < grown.segmentSize := h.segment
  have hpos : grown.pos ≤ grown.fileSize := by
    change writer.file.pos ≤ size
    omega
  have hstart : grown.windowStart ≤ writer.file.pos := grown.windowStart_le
  have hwindow : grown.windowStart + grown.windowSize asked ≤ size := windowSize_le hpos asked
  have hoffset : writer.file.pos - grown.windowStart ≤ grown.windowSize asked :=
    offset_le_windowSize hsegment hpos asked
  have huse : writer.file.pos - grown.windowStart + grown.useLen asked ≤ grown.windowSize asked :=
    offset_add_useLen_le hsegment hpos asked
  have heof : writer.file.endOfFilePos ≤ size := h.eof.trans hgrows
  have hend : writer.file.pos + grown.useLen asked ≤ size := by
    change writer.file.pos ≤ size at hpos
    omega
  have hsize : bytes ≤ writer.file.regionLimit - writer.file.segmentSize →
      grown.useLen asked = asked := by
    intro hbytes
    have hle : asked ≤ 7 * grown.segmentSize := by
      change asked ≤ 7 * writer.file.segmentSize
      change 0 < writer.file.segmentSize at hsegment
      simp only [regionLimit] at hbytes
      rw [hasked, WfdeFile.asked]
      split <;> omega
    exact useLen_eq (asked_pos h.segment bytes) hle hsegment hroom
  exact ⟨{
      size := hsize
      start := rfl
      regionStart_le_start := hstart
      buffer_le_region := by
        change writer.file.pos + grown.useLen asked ≤ grown.windowStart + grown.windowSize asked
        omega
      region_le_file := hwindow
      regionStart_le_pos := hstart
      regionStart_le_fileSize := hstart.trans hpos
      offset_le_regionSize := hoffset
      endOfFilePos_le := heof
      pos_le := hend },
    ⟨h.mapped, h.segment, heof, hend, fun _ => Nat.le_add_left _ _⟩⟩

/-- **A commit** takes the position back, but not beyond where the file begins. -/
theorem Sound.setBytesWritten (h : writer.Sound) {bytes : Nat} (hoffered : writer.offered = true) :
    writer.file.lastBufferLen - bytes ≤ writer.file.pos
      ∧ Sound { file := writer.file.setBytesWritten bytes } := by
  have hlast := h.last hoffered
  have heof := h.eof
  have hpos := h.pos
  refine ⟨by omega, ?_⟩
  by_cases hshort : bytes < writer.file.lastBufferLen
  · rw [setBytesWritten_of_lt hshort]
    exact ⟨h.mapped, h.segment, by simp only; omega, by simp only; omega, by simp⟩
  · rw [setBytesWritten_of_not_lt hshort]
    exact ⟨h.mapped, h.segment, by simp only; omega, hpos, by simp⟩

theorem Sound.step (h : writer.Sound) {call : WriteCall} (hcall : writer.Admits call) :
    (writer.step call).Sound := by
  cases call with
  | write bytes disk =>
      rw [Writer.step]
      cases hrun : (writer.file.write bytes).run disk with
      | ok offer disk' => exact (h.write hrun).2
      | error e disk' => exact ⟨h.mapped, h.segment, h.eof, h.pos, by simp⟩
  | setBytesWritten bytes => exact (h.setBytesWritten hcall.1).2

theorem Sound.run (h : writer.Sound) {calls : List WriteCall}
    (hcalls : Along Writer.step Admits writer calls) : (Machine.run Writer.step writer calls).Sound :=
  run_induction_along Writer.step Sound (fun _ _ hcall hsound => hsound.step hcall) h hcalls

/-- The constructor leaves a sound file, in whatever operation it opens it. -/
theorem sound_make {segmentSize : Nat} {path : PPath} {operation : FileOperation}
    {disk disk' : Disk} {file : WfdeFile} (hsegment : 0 < segmentSize)
    (h : (make segmentSize path operation).run disk = .ok file disk') : Sound { file } := by
  obtain ⟨_, prepared, -, h⟩ := bind_eq_ok.mp h
  obtain ⟨size, _, -, h⟩ := bind_eq_ok.mp h
  obtain ⟨opened, _, hmap, h⟩ := bind_eq_ok.mp h
  obtain ⟨-, -, rfl⟩ := mapFile_eq_ok hmap
  by_cases happend : operation = .append
  · rw [if_pos happend] at h
    obtain ⟨_, _, hrequire, h⟩ := bind_eq_ok.mp h
    obtain ⟨rfl, -⟩ := pure_eq_ok.mp h
    exact ⟨rfl, hsegment, le_rfl, le_rfl, by simp⟩
  · rw [if_neg happend] at h
    obtain ⟨rfl, -⟩ := pure_eq_ok.mp h
    exact ⟨rfl, hsegment, le_rfl, Nat.zero_le _, by simp⟩

/-- **In every state that a run of `Write` and `SetBytesWritten` reaches, a buffer that `Write` returns
has the size that was asked for and lies in the region and in the file.** `Write` returns where the
file can be enlarged, and no commit takes the position below zero. -/
theorem write_fits {segmentSize : Nat} (hsegment : 0 < segmentSize) {path : PPath}
    {operation : FileOperation} {disk disk' : Disk} {file : WfdeFile}
    (hmake : (make segmentSize path operation).run disk = .ok file disk') (calls : List WriteCall)
    (hcalls : Along step Admits { file } calls) :
    let writer := Machine.run step { file } calls
    writer.file.endOfFilePos ≤ writer.file.fileSize
      ∧ writer.file.pos ≤ writer.file.fileSize
      ∧ (∀ bytes before content, before.files.node writer.file.path = some (.file content) →
          before.files.refuses .write writer.file.path = false →
          ∃ buffer after disk', (writer.file.write bytes).run before = .ok (buffer, after) disk')
      ∧ (∀ bytes before buffer after disk',
          (writer.file.write bytes).run before = .ok (buffer, after) disk' →
          writer.file.Fits bytes buffer after)
      ∧ ∀ bytes, writer.Admits (.setBytesWritten bytes) →
          writer.file.lastBufferLen - bytes ≤ writer.file.pos := by
  have hsound := (sound_make hsegment hmake).run hcalls
  exact ⟨hsound.eof, hsound.pos,
    fun bytes _ _ hnode hwrite => write_returns hsound.mapped hnode hwrite bytes,
    fun _ _ _ _ _ hrun => (hsound.write hrun).1,
    fun _ hadmits => (hsound.setBytesWritten hadmits.1).1⟩

/-- A file system in which every path is an empty file. -/
def emptyFiles : Disk := ⟨⟨fun _ => some (.file []), fun _ _ => false⟩, []⟩

theorem write_fits_after_commit :
    let file : WfdeFile :=
      { path := [], operation := .write, segmentSize := 4, mode := .readWrite, endOfFilePos := 0,
        haveMappedFile := true }
    let writer := Machine.run step { file } [.write 5 emptyFiles, .setBytesWritten 3]
    writer.file.pos = 3
      ∧ ∀ buffer after disk', (writer.file.write 0).run emptyFiles = .ok (buffer, after) disk' →
          writer.file.Fits 0 buffer after :=
  ⟨by rfl, fun buffer after disk' hrun =>
    (write_fits (by decide) (show (make 4 [] .write).run emptyFiles = _ from rfl)
      [.write 5 emptyFiles, .setBytesWritten 3] ⟨trivial, ⟨rfl, by decide⟩, trivial⟩).2.2.2.1 0 emptyFiles buffer after disk' hrun⟩

end Writer

end Wfde
