import Wfde.FileSystem

/-!
# Mapped files

`WfdeFile`. A region that is mapped for writing is the file itself: what is stored in the buffer is
in the file at once. File offsets are natural numbers here; no file reaches 2^64 bytes.
-/

namespace Wfde

open Effect

inductive FileOperation where
  | read
  | write
  | writeNew
  | append
  deriving DecidableEq

/-- `mode_` of a mapping. -/
inductive MappingMode where
  | readOnly
  | readWrite
  deriving DecidableEq

/-- `segmentSize` is the page size of the machine. -/
structure WfdeFile where
  path : PPath
  operation : FileOperation
  segmentSize : Nat
  mode : MappingMode := .readOnly
  pos : Nat := 0
  regionStart : Nat := 0
  regionSize : Nat := 0
  fileSize : Nat := 0
  endOfFilePos : Nat := 2 ^ 64 - 1
  lastBufferLen : Nat := 0
  doTruncate : Bool := false
  closed : Bool := false
  haveMappedRegion : Bool := false
  haveMappedFile : Bool := false
  deriving DecidableEq

/-- A buffer in the mapped region: where it starts in the file and how long it is. -/
structure MutableBuffer where
  start : Nat
  size : Nat
  deriving DecidableEq

namespace WfdeFile

def regionLimit (file : WfdeFile) : Nat := file.segmentSize * 8

def growSize (file : WfdeFile) : Nat := file.regionLimit * 128

def isEof (file : WfdeFile) : Bool := file.pos == file.fileSize

def umapRegion (file : WfdeFile) : WfdeFile :=
  if file.haveMappedRegion then { file with regionSize := 0, haveMappedRegion := false } else file

def unmapFile (file : WfdeFile) : WfdeFile :=
  if file.haveMappedFile then { file.umapRegion with haveMappedFile := false } else file

/-- Whether the file can be opened in the mode of the mapping. -/
def mappable (file : WfdeFile) (files : FileSystem) : Bool :=
  Node.isRegularFile (files.node file.path) && !files.refuses .read file.path
    && (file.mode == .readOnly || !files.refuses .write file.path)

def mapFile (file : WfdeFile) : DiskM WfdeFile := do
  require (file.mappable (← get).files) .interprocessError
  return { file.umapRegion with haveMappedFile := true }

def seek (file : WfdeFile) (pos : Nat) : DiskM WfdeFile := do
  require (pos ≤ file.fileSize) .seekBeoindEof
  return { file with pos := pos }

/-- What the constructor does to the file system before it maps the file. -/
def prepare (path : PPath) (operation : FileOperation) : DiskM Unit := do
  let st ← Disk.status path
  match operation with
  | .read => require (Node.isRegularFile st) .notFound
  | .writeNew => do
      require (!st.isSome) .alreadyExist
      let _ ← Disk.perform (.touch path)
  | .append =>
      if st.isSome then pure () else do
        let _ ← Disk.perform (.touch path)
  | .write =>
      if st.isSome then Disk.performOrThrow (.resizeFile path 0)
      else do
        let _ ← Disk.perform (.touch path)

/-- The constructor. -/
def make (segmentSize : Nat) (path : PPath) (operation : FileOperation) : DiskM WfdeFile := do
  prepare path operation
  let size ← Disk.fileSize path
  let file ← mapFile
    { path, operation, segmentSize
      mode := if operation = .read then .readOnly else .readWrite
      fileSize := size, endOfFilePos := size }
  if operation = .append then file.seek file.endOfFilePos
  else return file

def mapRegion (file : WfdeFile) (wantBytes : Nat) : DiskM WfdeFile := do
  let file ← if file.haveMappedFile then pure file else file.mapFile
  let startSegment := file.pos / file.segmentSize
  let regionStart := startSegment * file.segmentSize
  let maxRegionSize :=
    if wantBytes ≠ 0 then min (wantBytes + file.segmentSize) file.regionLimit else file.regionLimit
  let regionLen := min maxRegionSize (file.fileSize - regionStart)
  return { file with regionStart, regionSize := regionLen, haveMappedRegion := true }

def getBufferValues (file : WfdeFile) (bytes : Nat) : DiskM (MutableBuffer × WfdeFile) := do
  let file ← file.mapRegion bytes
  let offset := file.pos - file.regionStart
  let segLen := file.regionSize - offset
  let useLen := if bytes ≠ 0 then min bytes segLen else segLen
  return (⟨file.regionStart + offset, useLen⟩,
    { file with pos := file.pos + useLen, lastBufferLen := useLen })

/-- The size the file is enlarged to when `minFileSize` bytes are needed. -/
def enlargedSize (file : WfdeFile) (minFileSize : Nat) : Nat :=
  let align := if minFileSize % file.segmentSize ≠ 0 then file.segmentSize else 0
  let segments := minFileSize / file.segmentSize
  max (segments * file.segmentSize + align) (file.fileSize + file.growSize)

def write (file : WfdeFile) (bytes : Nat := 0) : DiskM (MutableBuffer × WfdeFile) := do
  let bytes := if bytes = 0 then file.segmentSize else bytes
  let minFileSize := file.pos + bytes + file.segmentSize
  if minFileSize > file.fileSize then
    let size := file.enlargedSize minFileSize
    Disk.performOrThrow (.resizeFile file.path size)
    { file with fileSize := size }.getBufferValues bytes
  else file.getBufferValues bytes

/-- `bytes` is at most `last_buffer_len_`. -/
def setBytesWritten (file : WfdeFile) (bytes : Nat) : WfdeFile :=
  let file :=
    if bytes < file.lastBufferLen then
      { file with pos := file.pos - (file.lastBufferLen - bytes), doTruncate := true }
    else file
  { file with endOfFilePos := max file.endOfFilePos file.pos }

def bufferBytes (files : FileSystem) (path : PPath) (buffer : MutableBuffer) : Bytes :=
  match files.node path with
  | some (.file content) => (content.drop buffer.start).take buffer.size
  | _ => []

def read (file : WfdeFile) (bytes : Nat := 0) : DiskM (Bytes × WfdeFile) := do
  let (buffer, file) ← file.getBufferValues bytes
  return (bufferBytes (← get).files file.path buffer, file)

/-- Bytes stored at the start of a buffer that is mapped for writing. -/
def store (file : WfdeFile) (buffer : MutableBuffer) (bytes : Bytes) : DiskM Unit :=
  modify fun disk =>
    match disk.files.node file.path with
    | some (.file content) =>
        { disk with
          files := disk.files.set file.path
            (some (.file (content.take buffer.start ++ bytes
              ++ content.drop (buffer.start + bytes.length)))) }
    | _ => disk

/-- `closed_` stays false, so that every further call does the same. -/
def close (file : WfdeFile) : DiskM WfdeFile :=
  if file.closed then return file
  else
    let file := { file with closed := false }.unmapFile
    if file.doTruncate && file.fileSize > file.endOfFilePos then do
      if Node.isRegularFile (← Disk.status file.path) then
        let _ ← Disk.perform (.resizeFile file.path file.endOfFilePos)
        return file
      else return file
    else return file

end WfdeFile

end Wfde
