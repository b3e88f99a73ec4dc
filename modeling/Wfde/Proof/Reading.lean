import Wfde.Proof.MappedFile
import Wfde.Proof.Rename

/-!
# Reading a mapped file

`SendFile` reads until the end of the file. Each `Read` maps a window anew, from the segment of the
position on, and returns all of it that lies behind the position.
-/

namespace Wfde

open Effect

namespace WfdeFile

/-- What a `Read` has returned, and the file behind it. -/
structure ReadResult where
  buffer : MutableBuffer
  bytes : Bytes
  file : WfdeFile
  deriving DecidableEq

/-- `Read()`, with the place of its buffer. -/
def readNext (file : WfdeFile) : DiskM ReadResult := do
  let (buffer, file) ← file.getBufferValues 0
  return ⟨buffer, bufferBytes (← get).files file.path buffer, file⟩

theorem read_eq_readNext (file : WfdeFile) :
    file.read 0 = do
      let result ← file.readNext
      return (result.bytes, result.file) := by
  unfold read readNext
  simp only [bind_assoc, pure_bind]

/-- The loop of `SendFile`, with a bound on the calls of `Read`: the buffers that it returns. -/
def readAll : Nat → WfdeFile → DiskM (List Bytes × WfdeFile)
  | 0, file => return ([], file)
  | reads + 1, file =>
      if file.isEof then return ([], file)
      else do
        let (bytes, file) ← file.read 0
        let (buffers, file) ← readAll reads file
        return (bytes :: buffers, file)

/-- The same loop, with the places of its buffers. -/
def readLoop : Nat → WfdeFile → DiskM (List ReadResult × WfdeFile)
  | 0, file => return ([], file)
  | reads + 1, file =>
      if file.isEof then return ([], file)
      else do
        let result ← file.readNext
        let (results, file) ← readLoop reads result.file
        return (result :: results, file)

theorem readAll_eq_readLoop (reads : Nat) (file : WfdeFile) :
    readAll reads file = do
      let (results, file) ← readLoop reads file
      return (results.map ReadResult.bytes, file) := by
  induction reads generalizing file with
  | zero => rfl
  | succ reads ih =>
      unfold readAll readLoop
      split
      · rfl
      · simp only [read_eq_readNext, ih, bind_assoc, pure_bind, List.map_cons]

theorem readAll_run {reads : Nat} {file file' : WfdeFile} {results : List ReadResult}
    {disk disk' : Disk} (h : (readLoop reads file).run disk = .ok (results, file') disk') :
    (readAll reads file).run disk = .ok (results.map ReadResult.bytes, file') disk' := by
  rw [readAll_eq_readLoop]
  exact bind_eq_ok.mpr ⟨_, _, h, rfl⟩

/-- A file that is opened to be read from a position on. -/
def openAt (segmentSize : Nat) (path : PPath) (pos : Nat) : DiskM WfdeFile := do
  let file ← make segmentSize path .read
  file.seek pos

/-- An open file with the content it is read from. -/
structure Reading (file : WfdeFile) (disk : Disk) (content : Bytes) : Prop where
  node : disk.files.node file.path = some (.file content)
  fileSize : file.fileSize = content.length
  pos : file.pos ≤ content.length
  mapped : file.haveMappedFile = true
  segment : 0 < file.segmentSize

/-- The buffer is not empty and lies in the region that is mapped. -/
structure InRegion (result : ReadResult) : Prop where
  nonempty : result.bytes ≠ []
  length : result.bytes.length = result.buffer.size
  start_le : result.file.regionStart ≤ result.buffer.start
  end_le : result.buffer.start + result.buffer.size
    ≤ result.file.regionStart + result.file.regionSize
  region_pos : 0 < result.file.regionSize
  mapped : result.file.haveMappedRegion = true

section

variable {file : WfdeFile} {disk : Disk} {content : Bytes}

theorem useLen_zero (hlt : file.pos < file.fileSize) (hsegment : 0 < file.segmentSize) :
    0 < file.useLen 0 ∧ file.pos + file.useLen 0 = file.windowStart + file.windowSize 0
      ∧ file.pos + file.useLen 0 ≤ file.fileSize := by
  have hstart := file.windowStart_le
  have hwindow := file.pos_lt_windowStart hsegment
  have huse : file.useLen 0 = file.windowSize 0 - (file.pos - file.windowStart) := rfl
  have hsize : file.windowSize 0
      = min (file.segmentSize * 8) (file.fileSize - file.windowStart) := rfl
  omega

theorem bufferBytes_eq (hnode : disk.files.node file.path = some (.file content))
    (buffer : MutableBuffer) :
    bufferBytes disk.files file.path buffer = (content.drop buffer.start).take buffer.size := by
  simp only [bufferBytes, hnode]

/-- **`Read`** returns the bytes behind the position and moves it behind them. -/
theorem Reading.readNext (h : Reading file disk content) (hlt : file.pos < content.length) :
    ∃ result, file.readNext.run disk = .ok result disk ∧ InRegion result
      ∧ Reading result.file disk content ∧ result.file.pos = file.pos + result.bytes.length
      ∧ result.bytes ++ content.drop result.file.pos = content.drop file.pos
      ∧ result.file.operation = file.operation := by
  have hsize : file.pos < file.fileSize := by rwa [h.fileSize]
  obtain ⟨huse, hend, hle⟩ := useLen_zero hsize h.segment
  rw [h.fileSize] at hle
  have hbytes : bufferBytes disk.files file.path ⟨file.pos, file.useLen 0⟩
      = (content.drop file.pos).take (file.useLen 0) := bufferBytes_eq h.node _
  have hlength : ((content.drop file.pos).take (file.useLen 0)).length = file.useLen 0 := by
    rw [List.length_take, List.length_drop]
    omega
  have hrun : file.readNext.run disk = .ok ⟨⟨file.pos, file.useLen 0⟩,
      (content.drop file.pos).take (file.useLen 0), file.moved 0⟩ disk := by
    refine bind_eq_ok.mpr ⟨_, _, getBufferValues_run 0 h.mapped disk, ?_⟩
    rw [← hbytes]
    rfl
  refine ⟨_, hrun, ⟨?_, hlength, ?_, ?_, ?_, rfl⟩, ⟨h.node, h.fileSize, hle, h.mapped, h.segment⟩,
    ?_, ?_, rfl⟩
  · exact List.ne_nil_of_length_pos (by rw [hlength]; exact huse)
  · exact file.windowStart_le
  · exact hend.le
  · change 0 < file.windowSize 0
    have hstart := file.windowStart_le
    omega
  · rw [hlength]
    rfl
  · change _ ++ content.drop (file.pos + file.useLen 0) = _
    rw [← List.drop_drop, List.take_append_drop]

theorem readLoop_of_isEof (heof : file.isEof = true) (reads : Nat) :
    (WfdeFile.readLoop reads file).run disk = .ok ([], file) disk := by
  cases reads with
  | zero => rfl
  | succ reads =>
      unfold WfdeFile.readLoop
      rw [if_pos heof]
      rfl

/-- What the loop does with a file, however many reads beyond `left` it is given. -/
def Sends (file : WfdeFile) (disk : Disk) (left : Nat) (sent : Bytes) : Prop :=
  ∃ results file', (∀ reads, left ≤ reads →
      (readLoop reads file).run disk = .ok (results, file') disk
        ∧ (readAll reads file).run disk = .ok (results.map ReadResult.bytes, file') disk)
    ∧ file'.isEof = true ∧ (results.map ReadResult.bytes).flatten = sent
    ∧ ∀ result ∈ results, InRegion result

theorem Reading.sends_nothing (h : Reading file disk content) (hend : content.length ≤ file.pos)
    (left : Nat) : Sends file disk left (content.drop file.pos) := by
  have heof : file.isEof = true := by
    rw [isEof, beq_iff_eq, h.fileSize]
    exact Nat.le_antisymm h.pos hend
  refine ⟨[], file, fun reads _ => ?_, heof, ?_, by simp⟩
  · have hloop : (WfdeFile.readLoop reads file).run disk = .ok ([], file) disk :=
      readLoop_of_isEof heof reads
    exact ⟨hloop, readAll_run hloop⟩
  · simp [hend]

/-- **The loop.** With as many reads as there are bytes, or more, it comes to the end of the file. -/
theorem Reading.sends (h : Reading file disk content) {left : Nat}
    (hleft : content.length - file.pos ≤ left) : Sends file disk left (content.drop file.pos) := by
  induction left generalizing file with
  | zero => exact h.sends_nothing (Nat.le_of_sub_eq_zero (Nat.le_zero.mp hleft)) 0
  | succ left ih =>
      by_cases hend : content.length ≤ file.pos
      · exact h.sends_nothing hend _
      · have hlt : file.pos < content.length := Nat.lt_of_not_le hend
        obtain ⟨result, hrun, hregion, hreading, hpos, hbytes, -⟩ := h.readNext hlt
        have hmoved : 0 < result.bytes.length := List.length_pos_of_ne_nil hregion.nonempty
        obtain ⟨results, file', hloop, heof, hflatten, hregions⟩ := ih hreading (by omega)
        have hsucc (reads : Nat) (hreads : left + 1 ≤ reads) :
            (WfdeFile.readLoop reads file).run disk = .ok (result :: results, file') disk := by
          obtain ⟨reads, rfl⟩ := Nat.exists_eq_add_of_le' (Nat.one_le_of_lt hreads)
          have hnotEof : ¬ file.isEof = true := by
            rw [isEof, beq_iff_eq, h.fileSize]
            exact hlt.ne
          unfold WfdeFile.readLoop
          rw [if_neg hnotEof]
          have hrest := (hloop reads (Nat.le_of_succ_le_succ hreads)).1
          exact bind_eq_ok.mpr ⟨result, disk, hrun, bind_eq_ok.mpr ⟨_, _, hrest, rfl⟩⟩
        refine ⟨result :: results, file', fun reads hreads => ?_, heof, ?_, ?_⟩
        · exact ⟨hsucc reads hreads, readAll_run (hsucc reads hreads)⟩
        · rw [List.map_cons, List.flatten_cons, hflatten, hbytes]
        · exact List.forall_mem_cons.mpr ⟨hregion, hregions⟩

theorem make_reading {segmentSize : Nat} {path : PPath} {disk' : Disk} (hsegment : 0 < segmentSize)
    (hnode : disk.files.node path = some (.file content))
    (h : (make segmentSize path .read).run disk = .ok file disk') :
    disk = disk' ∧ Reading file disk content ∧ file.pos = 0 ∧ file.path = path
      ∧ file.operation = .read := by
  have hprepare : Keeps Eq (prepare path .read) :=
    keeps_bind (Disk.keeps_status path) fun _ => keeps_require _ _
  have hsame : disk = disk' := by
    rw [← after_of_ok h, after_make]
    exact hprepare disk
  obtain ⟨_, prepared, hprepared, h⟩ := bind_eq_ok.mp h
  obtain rfl : disk = prepared := (hprepare disk).trans (after_of_ok hprepared)
  obtain ⟨size, _, hsize, h⟩ := bind_eq_ok.mp h
  obtain ⟨rfl, -, found, hfound, rfl⟩ := fileSize_eq_ok hsize
  obtain rfl : found = content := by simpa [hfound] using hnode
  obtain ⟨mapped, _, hmap, h⟩ := bind_eq_ok.mp h
  obtain ⟨rfl, -, rfl⟩ := mapFile_eq_ok hmap
  obtain ⟨rfl, -⟩ := pure_eq_ok.mp h
  exact ⟨hsame, ⟨hnode, rfl, Nat.zero_le _, rfl, hsegment⟩, rfl, rfl, rfl⟩

theorem openAt_reading {segmentSize pos : Nat} {path : PPath} {disk' : Disk}
    (hsegment : 0 < segmentSize) (hnode : disk.files.node path = some (.file content))
    (h : (openAt segmentSize path pos).run disk = .ok file disk') :
    disk = disk' ∧ Reading file disk content ∧ file.pos = pos := by
  obtain ⟨opened, _, hmake, h⟩ := bind_eq_ok.mp h
  obtain ⟨rfl, hreading, -, -, -⟩ := make_reading hsegment hnode hmake
  obtain ⟨_, _, hrequire, h⟩ := bind_eq_ok.mp h
  obtain ⟨hpos, rfl⟩ := require_eq_ok.mp hrequire
  obtain ⟨rfl, rfl⟩ := pure_eq_ok.mp h
  refine ⟨rfl, ⟨hreading.node, hreading.fileSize, ?_, hreading.mapped, hreading.segment⟩, rfl⟩
  rw [← hreading.fileSize]
  exact of_decide_eq_true hpos

end

/-- **Downloads.** The loop over a file that is read from a position on comes to the end of the
file, whatever its length. It returns the bytes from the position on, in order, in buffers that lie
in the region mapped for them. -/
theorem openAt_sends {segmentSize pos : Nat} {path : PPath} {disk disk' : Disk} {content : Bytes}
    {file : WfdeFile} (hsegment : 0 < segmentSize)
    (hnode : disk.files.node path = some (.file content))
    (hopen : (openAt segmentSize path pos).run disk = .ok file disk') :
    Sends file disk' (content.length - pos) (content.drop pos) := by
  obtain ⟨rfl, hreading, rfl⟩ := openAt_reading hsegment hnode hopen
  exact hreading.sends le_rfl

/-- Twenty bytes, in segments of two, take two windows from the fourth byte on. -/
theorem openAt_sends_two_windows :
    ∃ file disk', (openAt 2 [bytes "srv", bytes "a"] 3).run (oneFileDisk (List.replicate 20 7))
        = .ok file disk'
      ∧ Sends file disk' 17 (List.replicate 17 7) := by
  refine ⟨_, _, rfl, ?_⟩
  exact openAt_sends (by decide) rfl (show (openAt 2 [bytes "srv", bytes "a"] 3).run
    (oneFileDisk (List.replicate 20 7)) = _ from rfl)

end WfdeFile

end Wfde
