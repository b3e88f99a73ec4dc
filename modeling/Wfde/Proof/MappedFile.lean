import Wfde.File

/-!
# Writing a mapped file

A file that is being written is the bytes it holds and padding behind them. `Write` enlarges the
padding and offers the front of it, `SetBytesWritten` moves the end of what is held over the bytes
that have been stored there, and `Close` cuts the padding off if any offer was not used up.
-/

namespace Wfde

open Effect

namespace Disk

/-- Nothing but the file at the path has changed. -/
structure OnlyAt (path : PPath) (before after : Disk) : Prop where
  refuses : after.files.refuses = before.files.refuses
  node : ∀ other, other ≠ path → after.files.node other = before.files.node other

instance (path : PPath) : Std.Refl (OnlyAt path) := ⟨fun _ => ⟨rfl, fun _ _ => rfl⟩⟩

instance (path : PPath) : IsTrans Disk (OnlyAt path) :=
  ⟨fun _ _ _ hab hbc =>
    ⟨hbc.refuses.trans hab.refuses, fun other hne => (hbc.node other hne).trans (hab.node other hne)⟩⟩

theorem onlyAt_set (path : PPath) (disk : Disk) (node : Option Node) (performed : List Primitive) :
    OnlyAt path disk ⟨disk.files.set path node, performed⟩ :=
  ⟨rfl, fun _ hne => FileSystem.set_node_of_ne disk.files node hne⟩

variable {path : PPath} {disk : Disk} {content : Bytes}

theorem perform_run (primitive : Primitive) (disk : Disk) : (perform primitive).run disk
    = .ok (disk.files.perform primitive).isSome (after (perform primitive) disk) := by
  rw [after_perform]
  change perform primitive disk = _
  unfold perform
  cases disk.files.perform primitive with
  | some files => rfl
  | none => rfl

theorem after_resizeFile (hnode : disk.files.node path = some (.file content))
    (hwrite : disk.files.refuses .write path = false) (size : Nat) :
    after (perform (.resizeFile path size)) disk
      = ⟨disk.files.set path (some (.file (resized content size))),
        disk.performed ++ [.resizeFile path size]⟩ := by
  simp [after_perform, FileSystem.perform, hnode, hwrite]

theorem performOrThrow_eq_ok {primitive : Primitive} {disk' : Disk} :
    (performOrThrow primitive).run disk = .ok () disk'
      ↔ ∃ files, disk.files.perform primitive = some files
        ∧ disk' = ⟨files, disk.performed ++ [primitive]⟩ := by
  unfold performOrThrow
  rw [bind_eq_ok, perform_run, after_perform]
  cases hfiles : disk.files.perform primitive with
  | some files => simp [eq_comm]
  | none => simp

theorem performOrThrow_resizeFile (hnode : disk.files.node path = some (.file content))
    (hwrite : disk.files.refuses .write path = false) (size : Nat) :
    (performOrThrow (.resizeFile path size)).run disk
      = .ok () (after (perform (.resizeFile path size)) disk) := by
  rw [after_resizeFile hnode hwrite]
  refine performOrThrow_eq_ok.mpr ⟨_, ?_, rfl⟩
  simp [FileSystem.perform, hnode, hwrite]

end Disk

theorem resized_append (held padding : Bytes) {size : Nat} (h : held.length ≤ size) :
    ∃ rest, resized (held ++ padding) size = held ++ rest := by
  refine ⟨padding.take (size - held.length) ++ List.replicate (size - (held ++ padding).length) 0, ?_⟩
  rw [resized, List.take_append, List.take_of_length_le h, List.append_assoc]

theorem resized_held (held padding : Bytes) : resized (held ++ padding) held.length = held := by
  rw [resized, List.take_left, List.length_append, Nat.sub_eq_zero_of_le (Nat.le_add_right _ _)]
  simp

namespace WfdeFile

section Window

variable (file : WfdeFile) (bytes : Nat)

/-- Where the region starts that `MapRegion` maps for the position. -/
def windowStart : Nat := file.pos / file.segmentSize * file.segmentSize

def windowSize : Nat :=
  min (if bytes ≠ 0 then min (bytes + file.segmentSize) file.regionLimit else file.regionLimit)
    (file.fileSize - file.windowStart)

/-- The length of the buffer that `GetBufferValues` makes of it. -/
def useLen : Nat :=
  let segLen := file.windowSize bytes - (file.pos - file.windowStart)
  if bytes ≠ 0 then min bytes segLen else segLen

/-- The file behind it. -/
def moved : WfdeFile :=
  { file with
    regionStart := file.windowStart
    regionSize := file.windowSize bytes
    haveMappedRegion := true
    pos := file.pos + file.useLen bytes
    lastBufferLen := file.useLen bytes }

theorem windowStart_le : file.windowStart ≤ file.pos := Nat.div_mul_le_self _ _

theorem pos_lt_windowStart (hsegment : 0 < file.segmentSize) :
    file.pos < file.windowStart + file.segmentSize := by
  unfold windowStart
  have hdiv := Nat.div_add_mod' file.pos file.segmentSize
  have hmod := Nat.mod_lt file.pos hsegment
  omega

variable {file}

theorem getBufferValues_run (hmapped : file.haveMappedFile = true) (disk : Disk) :
    (file.getBufferValues bytes).run disk
      = .ok (⟨file.pos, file.useLen bytes⟩, file.moved bytes) disk := by
  have hregion : (file.mapRegion bytes).run disk = .ok { file with
      regionStart := file.windowStart
      regionSize := file.windowSize bytes
      haveMappedRegion := true } disk := by
    unfold mapRegion
    rw [if_pos hmapped]
    rfl
  refine bind_eq_ok.mpr ⟨_, _, hregion, ?_⟩
  have hstart : file.windowStart + (file.pos - file.windowStart) = file.pos :=
    Nat.add_sub_cancel' file.windowStart_le
  change EStateM.Result.ok (MutableBuffer.mk (file.windowStart + (file.pos - file.windowStart))
    (file.useLen bytes), file.moved bytes) disk = _
  rw [hstart]

end Window

section Writing

variable {file : WfdeFile} {disk : Disk} {held : Bytes}

/-- What stays as it is from the constructor on. -/
structure SameFile (before after : WfdeFile) : Prop where
  path : after.path = before.path
  operation : after.operation = before.operation
  segmentSize : after.segmentSize = before.segmentSize

/-- An open file that holds the bytes up to its logical end, with padding behind them. -/
structure Holds (file : WfdeFile) (disk : Disk) (held : Bytes) : Prop where
  content : ∃ padding, disk.files.node file.path = some (.file (held ++ padding))
    ∧ file.fileSize = held.length + padding.length
  eof : file.endOfFilePos = held.length
  mapped : file.haveMappedFile = true
  closed : file.closed = false
  writable : disk.files.refuses .write file.path = false
  visible : disk.files.refuses .status file.path = false
  segment : 0 < file.segmentSize

/-- The buffer `Write` has returned: it begins at the logical end. -/
structure Offers (file : WfdeFile) (disk : Disk) (held : Bytes) (buffer : MutableBuffer) : Prop where
  holds : Holds file disk held
  start : buffer.start = held.length
  pos : file.pos = held.length + buffer.size
  last : file.lastBufferLen = buffer.size
  room : held.length + buffer.size < file.fileSize

/-- Bytes have been stored at the start of the buffer. -/
structure Stored (file : WfdeFile) (disk : Disk) (held : Bytes) (buffer : MutableBuffer)
    (bytes : Bytes) : Prop where
  offers : Offers file disk held buffer
  le : bytes.length ≤ buffer.size
  stored : ∃ padding, disk.files.node file.path = some (.file (held ++ bytes ++ padding))
    ∧ file.fileSize = held.length + bytes.length + padding.length

theorem le_enlargedSize (hsegment : 0 < file.segmentSize) (minFileSize : Nat) :
    minFileSize ≤ file.enlargedSize minFileSize ∧ file.fileSize ≤ file.enlargedSize minFileSize := by
  have hdiv := Nat.div_add_mod' minFileSize file.segmentSize
  have hmod := Nat.mod_lt minFileSize hsegment
  refine ⟨le_trans ?_ (le_max_left _ _), le_trans (Nat.le_add_right _ _) (le_max_right _ _)⟩
  split <;> omega

theorem useLen_eq {bytes : Nat} (hpos : 0 < bytes) (hbytes : bytes ≤ 7 * file.segmentSize)
    (hsegment : 0 < file.segmentSize)
    (hroom : file.pos + bytes + file.segmentSize ≤ file.fileSize) : file.useLen bytes = bytes := by
  have hstart := file.windowStart_le
  have hlt := file.pos_lt_windowStart hsegment
  have hne : bytes ≠ 0 := Nat.pos_iff_ne_zero.mp hpos
  simp only [useLen, windowSize, regionLimit, if_pos hne]
  omega

theorem getBufferValues_offers {disk' : Disk} {rest : Bytes} {size grown : Nat}
    (h : Holds file disk held) (hpos : file.pos = held.length) (hsize : 0 < size)
    (hle : size ≤ 7 * file.segmentSize) (hroom : file.pos + size + file.segmentSize ≤ grown)
    (honly : Disk.OnlyAt file.path disk disk')
    (hnode : disk'.files.node file.path = some (.file (held ++ rest)))
    (hgrown : grown = held.length + rest.length) :
    ∃ file', (getBufferValues { file with fileSize := grown } size).run disk'
        = .ok (⟨held.length, size⟩, file') disk'
      ∧ Offers file' disk' held ⟨held.length, size⟩ ∧ SameFile file file'
      ∧ file'.doTruncate = file.doTruncate := by
  let enlarged : WfdeFile := { file with fileSize := grown }
  have huse : enlarged.useLen size = size := useLen_eq hsize hle h.segment hroom
  have hmapped : enlarged.haveMappedFile = true := h.mapped
  have hrun := getBufferValues_run size hmapped disk'
  rw [huse, show enlarged.pos = held.length from hpos] at hrun
  refine ⟨enlarged.moved size, hrun, ?_, ⟨rfl, rfl, rfl⟩, rfl⟩
  have hholds : Holds (enlarged.moved size) disk' held :=
    { content := ⟨rest, hnode, hgrown⟩
      eof := h.eof
      mapped := h.mapped
      closed := h.closed
      writable := by rw [honly.refuses]; exact h.writable
      visible := by rw [honly.refuses]; exact h.visible
      segment := h.segment }
  refine ⟨hholds, rfl, ?_, huse, ?_⟩
  · change file.pos + enlarged.useLen size = held.length + size
    rw [huse, hpos]
  · change held.length + size < grown
    have hsegment := h.segment
    omega

/-- **`Write`** offers what it is asked for, or a segment, behind what the file holds. -/
theorem write_run (h : Holds file disk held) (hpos : file.pos = held.length) {bytes size : Nat}
    (hsize : size = if bytes = 0 then file.segmentSize else bytes)
    (hle : size ≤ 7 * file.segmentSize) :
    ∃ file' disk', (file.write bytes).run disk = .ok (⟨held.length, size⟩, file') disk'
      ∧ Offers file' disk' held ⟨held.length, size⟩ ∧ SameFile file file'
      ∧ file'.doTruncate = file.doTruncate ∧ Disk.OnlyAt file.path disk disk' := by
  obtain ⟨padding, hnode, hfileSize⟩ := h.content
  have hsizePos : 0 < size := by
    have hsegment := h.segment
    rw [hsize]
    split <;> omega
  unfold write
  simp only [← hsize]
  by_cases hgrow : file.pos + size + file.segmentSize > file.fileSize
  · simp only [if_pos hgrow]
    obtain ⟨hmin, hgrows⟩ := le_enlargedSize h.segment (file.pos + size + file.segmentSize)
    set enlarged := file.enlargedSize (file.pos + size + file.segmentSize)
    obtain ⟨rest, hrest⟩ : ∃ rest, resized (held ++ padding) enlarged = held ++ rest :=
      resized_append held padding (by omega)
    have hlength : enlarged = held.length + rest.length := by
      rw [← List.length_append, ← hrest, length_resized]
    have hresize := Disk.after_resizeFile hnode h.writable enlarged
    have honly : Disk.OnlyAt file.path disk
        (after (Disk.perform (.resizeFile file.path enlarged)) disk) := by
      rw [hresize]
      exact Disk.onlyAt_set _ _ _ _
    have hnode' : (after (Disk.perform (.resizeFile file.path enlarged)) disk).files.node file.path
        = some (.file (held ++ rest)) := by
      rw [hresize, FileSystem.set_node_self, hrest]
    obtain ⟨file', hrun, hoffers, hsame, htruncate⟩ :=
      getBufferValues_offers h hpos hsizePos hle hmin honly hnode' hlength
    refine ⟨file', _, bind_eq_ok.mpr ⟨(), _, ?_, hrun⟩, hoffers, hsame, htruncate, honly⟩
    exact Disk.performOrThrow_resizeFile hnode h.writable enlarged
  · simp only [if_neg hgrow]
    obtain ⟨file', hrun, hoffers, hsame, htruncate⟩ :=
      getBufferValues_offers h hpos hsizePos hle (Nat.le_of_not_lt hgrow) (Std.Refl.refl disk) hnode
        hfileSize
    exact ⟨file', disk, hrun, hoffers, hsame, htruncate, Std.Refl.refl disk⟩

theorem Offers.stored {buffer : MutableBuffer} (h : Offers file disk held buffer) :
    Stored file disk held buffer [] := by
  obtain ⟨padding, hnode, hfileSize⟩ := h.holds.content
  exact ⟨h, Nat.zero_le _, padding, by rw [List.append_nil]; exact hnode, hfileSize⟩

theorem store_run {buffer : MutableBuffer} {bytes : Bytes} (h : Offers file disk held buffer)
    (hle : bytes.length ≤ buffer.size) :
    ∃ disk', (file.store buffer bytes).run disk = .ok () disk'
      ∧ Stored file disk' held buffer bytes ∧ Disk.OnlyAt file.path disk disk' := by
  obtain ⟨padding, hnode, hfileSize⟩ := h.holds.content
  have hroom := h.room
  let rest := padding.drop bytes.length
  have hcontent : (held ++ padding).take buffer.start ++ bytes
      ++ (held ++ padding).drop (buffer.start + bytes.length) = held ++ bytes ++ rest := by
    rw [h.start, List.take_left, List.drop_append, List.drop_of_length_le (by omega)]
    simp [rest]
  let disk' : Disk := { disk with
    files := disk.files.set file.path (some (.file (held ++ bytes ++ rest))) }
  have hrun : (file.store buffer bytes).run disk = .ok () disk' := by
    change EStateM.Result.ok () _ = EStateM.Result.ok () disk'
    dsimp only
    rw [hnode]
    dsimp only
    rw [hcontent]
  have honly : Disk.OnlyAt file.path disk disk' := Disk.onlyAt_set _ _ _ _
  have hlength : file.fileSize = held.length + bytes.length + rest.length := by
    simp only [rest, List.length_drop]
    omega
  have hnode' : disk'.files.node file.path = some (.file (held ++ bytes ++ rest)) :=
    FileSystem.set_node_self _ _ _
  have hholds : Holds file disk' held :=
    { content := ⟨bytes ++ rest, by rw [← List.append_assoc]; exact hnode', by
        rw [hlength, List.length_append, Nat.add_assoc]⟩
      eof := h.holds.eof
      mapped := h.holds.mapped
      closed := h.holds.closed
      writable := h.holds.writable
      visible := h.holds.visible
      segment := h.holds.segment }
  exact ⟨disk', hrun, ⟨⟨hholds, h.start, h.pos, h.last, h.room⟩, hle, rest, hnode', hlength⟩, honly⟩

theorem setBytesWritten_of_lt {bytes : Nat} (h : bytes < file.lastBufferLen) :
    file.setBytesWritten bytes = { file with
      pos := file.pos - (file.lastBufferLen - bytes)
      doTruncate := true
      endOfFilePos := max file.endOfFilePos (file.pos - (file.lastBufferLen - bytes)) } := by
  simp only [setBytesWritten, if_pos h]

theorem setBytesWritten_of_not_lt {bytes : Nat} (h : ¬ bytes < file.lastBufferLen) :
    file.setBytesWritten bytes
      = { file with endOfFilePos := max file.endOfFilePos file.pos } := by
  simp only [setBytesWritten, if_neg h]

/-- **`SetBytesWritten`** takes up what has been stored. -/
theorem Stored.setBytesWritten {buffer : MutableBuffer} {bytes : Bytes}
    (h : Stored file disk held buffer bytes) :
    Holds (file.setBytesWritten bytes.length) disk (held ++ bytes)
      ∧ (file.setBytesWritten bytes.length).pos = (held ++ bytes).length
      ∧ (file.setBytesWritten bytes.length).doTruncate
        = (file.doTruncate || decide (bytes.length < buffer.size))
      ∧ SameFile file (file.setBytesWritten bytes.length)
      ∧ (file.setBytesWritten bytes.length).fileSize = file.fileSize := by
  obtain ⟨padding, hnode, hfileSize⟩ := h.stored
  have hpos := h.offers.pos
  have hlast := h.offers.last
  have hle := h.le
  have heof := h.offers.holds.eof
  have hset : file.setBytesWritten bytes.length
      = { file with
          pos := held.length + bytes.length
          endOfFilePos := held.length + bytes.length
          doTruncate := file.doTruncate || decide (bytes.length < buffer.size) } := by
    have hmax : max file.endOfFilePos (held.length + bytes.length) = held.length + bytes.length :=
      Nat.max_eq_right (by omega)
    by_cases hshort : bytes.length < buffer.size
    · have hback : file.pos - (file.lastBufferLen - bytes.length) = held.length + bytes.length := by
        omega
      rw [setBytesWritten_of_lt (by rwa [hlast]), hback, hmax]
      simp [hshort]
    · have hfull : file.pos = held.length + bytes.length := by omega
      rw [setBytesWritten_of_not_lt (by rwa [hlast]), hfull, hmax]
      simp [hshort, ← hfull]
  rw [hset, ← List.length_append]
  refine ⟨⟨⟨padding, hnode, ?_⟩, rfl, h.offers.holds.mapped, h.offers.holds.closed,
    h.offers.holds.writable, h.offers.holds.visible, h.offers.holds.segment⟩, rfl, rfl, ⟨rfl, rfl, rfl⟩, rfl⟩
  rw [List.length_append]
  exact hfileSize

end Writing

section Closing

variable {file : WfdeFile} {disk : Disk} {held : Bytes}

/-- Whether `Close` wants to cut the file. -/
def cuts (file : WfdeFile) : Bool := file.doTruncate && file.fileSize > file.endOfFilePos

theorem unmapFile_eq (file : WfdeFile) :
    file.unmapFile.doTruncate = file.doTruncate ∧ file.unmapFile.fileSize = file.fileSize
      ∧ file.unmapFile.endOfFilePos = file.endOfFilePos ∧ file.unmapFile.path = file.path
      ∧ file.unmapFile.closed = file.closed := by
  unfold unmapFile umapRegion
  split
  · split <;> exact ⟨rfl, rfl, rfl, rfl, rfl⟩
  · exact ⟨rfl, rfl, rfl, rfl, rfl⟩

theorem close_eq (hclosed : file.closed = false) :
    file.close = if file.cuts then do
        if Node.isRegularFile (← Disk.status file.path) then
          let _ ← Disk.perform (.resizeFile file.path file.endOfFilePos)
          return file.unmapFile
        else return file.unmapFile
      else return file.unmapFile := by
  have hself : ({ file with closed := false } : WfdeFile) = file := by rw [← hclosed]
  obtain ⟨htruncate, hsize, heof, hpath, -⟩ := file.unmapFile_eq
  unfold close
  rw [hclosed, if_neg (by simp), hself]
  dsimp only
  rw [htruncate, hsize, heof, hpath]
  rfl

/-- **`Close`** does nothing but cut a file that it wants to cut at its logical end. -/
theorem close_run (hclosed : file.closed = false)
    (hvisible : disk.files.refuses .status file.path = false) :
    file.close.run disk = .ok file.unmapFile
      (if file.cuts = true ∧ Node.isRegularFile (disk.files.node file.path) = true then
        after (Disk.perform (.resizeFile file.path file.endOfFilePos)) disk
      else disk) := by
  rw [close_eq hclosed]
  by_cases hcuts : file.cuts = true
  · rw [if_pos hcuts]
    have hstatus : (Disk.status file.path).run disk = .ok (disk.files.node file.path) disk :=
      Disk.status_eq_ok.mpr ⟨hvisible, rfl, rfl⟩
    refine bind_eq_ok.mpr ⟨_, _, hstatus, ?_⟩
    by_cases hregular : Node.isRegularFile (disk.files.node file.path) = true
    · rw [if_pos hregular, if_pos ⟨hcuts, hregular⟩]
      exact bind_eq_ok.mpr ⟨_, _, Disk.perform_run _ disk, rfl⟩
    · rw [if_neg hregular, if_neg (fun h => hregular h.2)]
      rfl
  · rw [if_neg hcuts, if_neg (fun h => hcuts h.1)]
    rfl

/-- What `Close` needs of a file, which may have been closed before. -/
structure Ends (file : WfdeFile) (disk : Disk) (held : Bytes) : Prop where
  content : ∃ padding, disk.files.node file.path = some (.file (held ++ padding))
  eof : file.endOfFilePos = held.length
  closed : file.closed = false
  writable : disk.files.refuses .write file.path = false
  visible : disk.files.refuses .status file.path = false

theorem Holds.ends (h : Holds file disk held) : Ends file disk held :=
  have ⟨padding, hnode, _⟩ := h.content
  ⟨⟨padding, hnode⟩, h.eof, h.closed, h.writable, h.visible⟩

/-- A file that is cut ends with what it holds; another one keeps its padding. -/
theorem Ends.close (h : Ends file disk held) :
    ∃ disk', file.close.run disk = .ok file.unmapFile disk' ∧ Disk.OnlyAt file.path disk disk'
      ∧ Ends file.unmapFile disk' held
      ∧ (file.cuts = true → disk'.files.node file.path = some (.file held))
      ∧ (file.cuts = false → disk' = disk) := by
  obtain ⟨padding, hnode⟩ := h.content
  have hrun := close_run h.closed h.visible
  have hends {disk' : Disk} (honly : Disk.OnlyAt file.path disk disk') {rest : Bytes}
      (hrest : disk'.files.node file.path = some (.file (held ++ rest))) :
      Ends file.unmapFile disk' held := by
    obtain ⟨-, -, heof, hpath, hclosed⟩ := file.unmapFile_eq
    refine ⟨⟨rest, by rw [hpath]; exact hrest⟩, heof.trans h.eof, hclosed.trans h.closed, ?_, ?_⟩
    · rw [hpath, honly.refuses]
      exact h.writable
    · rw [hpath, honly.refuses]
      exact h.visible
  by_cases hcuts : file.cuts = true
  · have hregular : Node.isRegularFile (disk.files.node file.path) = true := by rw [hnode]; rfl
    rw [if_pos ⟨hcuts, hregular⟩, Disk.after_resizeFile hnode h.writable, h.eof, resized_held] at hrun
    have honly : Disk.OnlyAt file.path disk ⟨disk.files.set file.path (some (.file held)),
        disk.performed ++ [.resizeFile file.path held.length]⟩ := Disk.onlyAt_set _ _ _ _
    have hheld : (disk.files.set file.path (some (.file held))).node file.path
        = some (.file held) := FileSystem.set_node_self _ _ _
    refine ⟨_, hrun, honly, hends honly (hheld.trans (by rw [List.append_nil])),
      fun _ => hheld, ?_⟩
    exact fun hnot => absurd hcuts (by simp [hnot])
  · rw [if_neg (fun hboth => hcuts hboth.1)] at hrun
    have hsame : Disk.OnlyAt file.path disk disk := Std.Refl.refl disk
    exact ⟨disk, hrun, hsame, hends hsame hnode, fun hyes => absurd hyes hcuts, fun _ => rfl⟩

/-- Closing the file again leaves what it holds. -/
theorem Ends.close_again (h : Ends file disk held)
    (hnode : disk.files.node file.path = some (.file held)) :
    ∃ disk', file.close.run disk = .ok file.unmapFile disk'
      ∧ disk'.files.node file.path = some (.file held) := by
  obtain ⟨disk', hrun, -, -, hcut, hsame⟩ := h.close
  refine ⟨disk', hrun, ?_⟩
  cases hcuts : file.cuts with
  | true => exact hcut hcuts
  | false => rw [hsame hcuts, hnode]

/-- With padding to cut off, or none, nothing is left but what the file holds. -/
theorem Holds.close_of_doTruncate (h : Holds file disk held) (htruncate : file.doTruncate = true) :
    ∃ disk', file.close.run disk = .ok file.unmapFile disk' ∧ Disk.OnlyAt file.path disk disk'
      ∧ disk'.files.node file.path = some (.file held) := by
  obtain ⟨disk', hrun, honly, -, hcut, hsame⟩ := h.ends.close
  refine ⟨disk', hrun, honly, ?_⟩
  cases hcuts : file.cuts with
  | true => exact hcut hcuts
  | false =>
      obtain ⟨padding, hnode, hsize⟩ := h.content
      have hle : file.fileSize ≤ held.length := by
        rw [cuts, htruncate, h.eof] at hcuts
        simpa using hcuts
      have hpadding : padding = [] := List.eq_nil_of_length_eq_zero (by omega)
      rw [hsame hcuts, hnode, hpadding, List.append_nil]

end Closing

section Constructor

theorem keeps_mapFile (file : WfdeFile) : Keeps Eq file.mapFile :=
  keeps_bind keeps_get fun _ => keeps_bind (keeps_require _ _) fun _ => keeps_pure _

theorem after_make (segmentSize : Nat) (path : PPath) (operation : FileOperation) (disk : Disk) :
    after (make segmentSize path operation) disk = after (prepare path operation) disk := by
  refine after_bind_keeps (fun _ => ?_) disk
  refine keeps_bind (Disk.keeps_fileSize path) fun size => keeps_bind (keeps_mapFile _) fun file => ?_
  exact keeps_ite (keeps_bind (keeps_require _ _) fun _ => keeps_pure _) (keeps_pure _)

/-- Which call the constructor makes to change the file system. -/
def primitiveOf (path : PPath) (operation : FileOperation) (node : Option Node) : Option Primitive :=
  match operation with
  | .read => none
  | .writeNew | .append => if node.isSome then none else some (.touch path)
  | .write => if node.isSome then some (.resizeFile path 0) else some (.touch path)

theorem after_prepare {path : PPath} {disk : Disk}
    (hallowed : disk.files.refuses .status path = false) (operation : FileOperation) :
    after (prepare path operation) disk
      = match primitiveOf path operation (disk.files.node path) with
        | some primitive => after (Disk.perform primitive) disk
        | none => disk := by
  have hstatus : (Disk.status path).run disk = .ok (disk.files.node path) disk :=
    Disk.status_eq_ok.mpr ⟨hallowed, rfl, rfl⟩
  have htouch : after (do let _ ← Disk.perform (.touch path); pure ()) disk
      = after (Disk.perform (.touch path)) disk := after_bind_keeps (fun _ => keeps_pure _) disk
  have hresize : after (Disk.performOrThrow (.resizeFile path 0)) disk
      = after (Disk.perform (.resizeFile path 0)) disk :=
    after_bind_keeps (fun _ => keeps_require _ _) disk
  have hfree : (require true .alreadyExist : DiskM PUnit).run disk = .ok ⟨⟩ disk :=
    require_eq_ok.mpr ⟨rfl, rfl⟩
  unfold prepare
  rw [after_bind_of_ok hstatus]
  cases operation with
  | read =>
      have hkeeps : Keeps Eq (require (Node.isRegularFile (disk.files.node path)) .notFound
        : DiskM PUnit) := keeps_require _ _
      exact (hkeeps disk).symm
  | write =>
      cases disk.files.node path with
      | some node => exact hresize
      | none => exact htouch
  | writeNew =>
      cases disk.files.node path with
      | some node => rfl
      | none => exact (after_bind_of_ok hfree).trans htouch
  | append =>
      cases disk.files.node path with
      | some node => rfl
      | none => exact htouch

theorem after_prepare_of_refused {path : PPath} {disk : Disk}
    (hrefused : disk.files.refuses .status path = true) (operation : FileOperation) :
    after (prepare path operation) disk = disk := by
  rcases after_bind_of_keeps (Disk.keeps_status path) disk with h | ⟨node, hstatus, -⟩
  · exact h
  · rw [Disk.status_eq_ok.mp hstatus |>.1] at hrefused
    simp at hrefused

/-- What a file that is opened for writing holds at first. -/
def baseContent (operation : FileOperation) (node : Option Node) : Bytes :=
  match operation, node with
  | .append, some (.file content) => content
  | _, _ => []

theorem mapFile_eq_ok {file file' : WfdeFile} {disk disk' : Disk}
    (h : file.mapFile.run disk = .ok file' disk') :
    disk = disk' ∧ file.mappable disk.files = true
      ∧ file' = { file.umapRegion with haveMappedFile := true } := by
  obtain ⟨_, _, hget, h⟩ := bind_eq_ok.mp h
  cases hget
  obtain ⟨_, _, hrequire, h⟩ := bind_eq_ok.mp h
  obtain ⟨hmappable, rfl⟩ := require_eq_ok.mp hrequire
  obtain ⟨rfl, rfl⟩ := pure_eq_ok.mp h
  exact ⟨rfl, hmappable, rfl⟩

theorem fileSize_eq_ok {path : PPath} {disk disk' : Disk} {size : Nat}
    (h : (Disk.fileSize path).run disk = .ok size disk') :
    disk = disk' ∧ disk.files.refuses .status path = false
      ∧ ∃ content, disk.files.node path = some (.file content) ∧ size = content.length := by
  change Disk.fileSize path disk = _ at h
  unfold Disk.fileSize at h
  split at h
  · cases h
  · rename_i hvisible
    split at h
    · rename_i content hnode
      cases h
      exact ⟨rfl, by simpa using hvisible, content, hnode, rfl⟩
    · cases h

theorem prepare_content {path : PPath} {operation : FileOperation} {disk disk' : Disk}
    {content : Bytes} (hop : operation ≠ .read) (hvisible : disk.files.refuses .status path = false)
    (h : (prepare path operation).run disk = .ok () disk')
    (hnode : disk'.files.node path = some (.file content)) :
    content = baseContent operation (disk.files.node path) := by
  have hafter := after_prepare hvisible operation
  rw [after_of_ok h] at hafter
  have htouch (hnone : disk.files.node path = none)
      (hdisk : disk' = after (Disk.perform (.touch path)) disk) : content = [] := by
    rw [hdisk, Disk.after_perform] at hnode
    cases hrefused : disk.files.refuses .write path with
    | true => simp [FileSystem.perform, hrefused, hnone] at hnode
    | false =>
        simpa [FileSystem.perform, hrefused, hnone, eq_comm] using hnode
  cases hold : disk.files.node path with
  | none =>
      rw [hold] at hafter
      cases operation with
      | read => exact absurd rfl hop
      | write | writeNew | append => exact htouch hold hafter
  | some node =>
      rw [hold] at hafter
      cases operation with
      | read => exact absurd rfl hop
      | writeNew =>
          obtain ⟨st, _, hstatus, h⟩ := bind_eq_ok.mp h
          obtain ⟨-, hst, rfl⟩ := Disk.status_eq_ok.mp hstatus
          obtain ⟨_, _, hrequire, -⟩ := bind_eq_ok.mp h
          obtain ⟨hrequire, -⟩ := require_eq_ok.mp hrequire
          rw [← hst, hold] at hrequire
          cases hrequire
      | append =>
          replace hafter : disk' = disk := hafter
          rw [hafter, hold] at hnode
          obtain rfl := Option.some.inj hnode
          rfl
      | write =>
          obtain ⟨st, _, hstatus, h⟩ := bind_eq_ok.mp h
          obtain ⟨-, rfl, rfl⟩ := Disk.status_eq_ok.mp hstatus
          rw [hold] at h
          obtain ⟨files, hfiles, rfl⟩ := Disk.performOrThrow_eq_ok.mp h
          cases node with
          | directory => simp [FileSystem.perform, hold] at hfiles
          | file old =>
              cases hrefused : disk.files.refuses .write path with
              | true => simp [FileSystem.perform, hold, hrefused] at hfiles
              | false =>
                  simp only [FileSystem.perform, hold, hrefused, Bool.false_eq_true, if_false,
                    Option.some.injEq] at hfiles
                  rw [← hfiles] at hnode
                  have hempty : content = [] := by simpa [resized, eq_comm] using hnode
                  exact hempty

/-- **The constructor** opens a file that holds its base content. -/
theorem make_holds {segmentSize : Nat} {path : PPath} {operation : FileOperation} {disk disk' : Disk}
    {file : WfdeFile} (hop : operation ≠ .read) (hsegment : 0 < segmentSize)
    (h : (make segmentSize path operation).run disk = .ok file disk') :
    Holds file disk' (baseContent operation (disk.files.node path))
      ∧ file.pos = (baseContent operation (disk.files.node path)).length
      ∧ file.path = path ∧ file.operation = operation ∧ file.segmentSize = segmentSize
      ∧ file.doTruncate = false := by
  obtain ⟨_, prepared, hprepare, h⟩ := bind_eq_ok.mp h
  obtain ⟨size, _, hsize, h⟩ := bind_eq_ok.mp h
  obtain ⟨rfl, hvisible, content, hnode, rfl⟩ := fileSize_eq_ok hsize
  obtain ⟨opened, _, hmap, h⟩ := bind_eq_ok.mp h
  obtain ⟨rfl, hmappable, rfl⟩ := mapFile_eq_ok hmap
  have hstatus : disk.files.refuses .status path = false := by
    obtain ⟨_, _, hstatus, -⟩ := bind_eq_ok.mp hprepare
    exact (Disk.status_eq_ok.mp hstatus).1
  obtain rfl := prepare_content hop hstatus hprepare hnode
  rw [if_neg hop] at hmappable h
  have hwritable : prepared.files.refuses .write path = false := by
    simp only [mappable, Bool.and_eq_true, Bool.or_eq_true, Bool.not_eq_true'] at hmappable
    exact hmappable.2.resolve_left (by decide)
  have hholds (pos : Nat) : Holds
      { path, operation, segmentSize, mode := .readWrite, pos
        fileSize := (baseContent operation (disk.files.node path)).length
        endOfFilePos := (baseContent operation (disk.files.node path)).length
        haveMappedFile := true } prepared (baseContent operation (disk.files.node path)) :=
    ⟨⟨[], by rw [List.append_nil]; exact hnode, rfl⟩, rfl, rfl, rfl, hwritable, hvisible, hsegment⟩
  by_cases happend : operation = .append
  · rw [if_pos happend] at h
    obtain ⟨_, _, hrequire, h⟩ := bind_eq_ok.mp h
    obtain ⟨-, rfl⟩ := require_eq_ok.mp hrequire
    obtain ⟨rfl, rfl⟩ := pure_eq_ok.mp h
    exact ⟨hholds _, rfl, rfl, rfl, rfl, rfl⟩
  · rw [if_neg happend] at h
    obtain ⟨rfl, rfl⟩ := pure_eq_ok.mp h
    refine ⟨hholds 0, ?_, rfl, rfl, rfl, rfl⟩
    cases operation with
    | append => exact absurd rfl happend
    | _ => rfl

end Constructor

end WfdeFile

end Wfde
